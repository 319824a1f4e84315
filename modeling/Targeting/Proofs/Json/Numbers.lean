import Mathlib.Data.List.TakeWhile
import Targeting.Json.Reader
import Targeting.Json.Writer
import Targeting.Proofs.Json.Rounding

/-!
# Numbers in JSON text

A number ends where no further character can belong to it, so reading it from the text alone and
from the text with something else behind it comes to the same. An integer that fits 64 bits reads
back as itself, and no reading gives any other integer, or a fraction that is not finite. Whether a
fraction reads back depends on the rounding of the reader, and is a property of the fraction.

## Main definitions

* `Json.Number.ReadsBack` — the text of a number is read as this number
* `Json.Number.Fits` — an integer fits 64 bits, and a fraction is finite
* `Json.EndsNumber`, `Json.LooksNoFurther` — what a text may be followed by

## Main results

* `Json.looksNoFurther_readNumber?` — what follows a number plays no part in reading it
* `Json.Number.readsBack_int` — integers that fit read back
* `Json.fits_of_readNumber?` — numbers that are read fit
-/

namespace Targeting.Json

variable {α β : Type} {text rest more : List Char}

/-! ### Where a number ends -/

/-- A text does not begin with a character that could belong to a number in front of it. -/
def EndsNumber (more : List Char) : Prop :=
  ∀ c ∈ more.head?, c.isDigit = false ∧ c ≠ '.' ∧ c ≠ 'e' ∧ c ≠ 'E'

/-- A text does not begin with a digit. -/
def EndsDigits (more : List Char) : Prop := ∀ c ∈ more.head?, c.isDigit = false

theorem EndsNumber.endsDigits (h : EndsNumber more) : EndsDigits more := fun c hc => (h c hc).1

/-- What a reader makes of a text is not changed by what follows. -/
def LooksNoFurther (read? : Reader α) : Prop :=
  ∀ ⦃text rest a more⦄, EndsNumber more → read? text = some (a, rest) →
    read? (text ++ more) = some (a, rest ++ more)

theorem takeWhile_isDigit_append (hmore : EndsDigits more) (text : List Char) :
    (text ++ more).takeWhile Char.isDigit = text.takeWhile Char.isDigit := by
  induction text with
  | nil =>
    cases more with
    | nil => rfl
    | cons c more => rw [List.nil_append, List.takeWhile_cons, hmore c rfl]; rfl
  | cons c text ih => rw [List.cons_append, List.takeWhile_cons, List.takeWhile_cons, ih]

theorem dropWhile_isDigit_append (hmore : EndsDigits more) (text : List Char) :
    (text ++ more).dropWhile Char.isDigit = text.dropWhile Char.isDigit ++ more := by
  induction text with
  | nil =>
    cases more with
    | nil => rfl
    | cons c more => rw [List.nil_append, List.dropWhile_cons, hmore c rfl]; rfl
  | cons c text ih =>
    rw [List.cons_append, List.dropWhile_cons, List.dropWhile_cons, ih]
    split <;> rfl

theorem someDecimals?_append {digits : List Nat} (hmore : EndsDigits more)
    (h : Reader.someDecimals? text = some (digits, rest)) :
    Reader.someDecimals? (text ++ more) = some (digits, rest ++ more) := by
  unfold Reader.someDecimals? Reader.decimals at h ⊢
  rw [takeWhile_isDigit_append hmore, dropWhile_isDigit_append hmore]
  split at h
  · cases h
  · next hdigits hne heq =>
    cases heq
    cases h
    split
    · next heq => exact absurd (congrArg Prod.fst heq) hne
    · next heq => cases heq; rfl

theorem readLeading?_append {digits : List Nat} (hmore : EndsDigits more)
    (h : readLeading? text = some (digits, rest)) :
    readLeading? (text ++ more) = some (digits, rest ++ more) := by
  obtain ⟨⟨digits', rest'⟩, hdigits, hleading⟩ := Option.bind_eq_some_iff.mp h
  unfold readLeading?
  rw [someDecimals?_append hmore hdigits]
  dsimp only at hleading ⊢
  rw [Option.bind_eq_bind, Option.bind_some]
  split at hleading
  · cases hleading
  · next hzero =>
    cases hleading
    exact if_neg hzero

theorem looksNoFurther_someDecimals? : LooksNoFurther Reader.someDecimals? :=
  fun _ _ _ _ hmore h => someDecimals?_append hmore.endsDigits h

theorem looksNoFurther_readLeading? : LooksNoFurther readLeading? :=
  fun _ _ _ _ hmore h => readLeading?_append hmore.endsDigits h

theorem looksNoFurther_readFraction? : LooksNoFurther readFraction? := by
  intro text rest fraction more hmore h
  unfold readFraction? at h
  split at h
  · next text =>
    obtain ⟨⟨digits, rest'⟩, hdigits, heq⟩ := Option.map_eq_some_iff.mp h
    cases heq
    rw [List.cons_append, readFraction?, looksNoFurther_someDecimals? hmore hdigits]
    rfl
  · next hpoint =>
    cases h
    -- the point is neither in the text nor behind it
    have hnone : ∀ rest, text ++ more ≠ '.' :: rest := by
      intro rest heq
      cases text with
      | nil =>
        rw [List.nil_append] at heq
        exact (hmore '.' (by rw [heq]; rfl)).2.1 rfl
      | cons c text =>
        cases heq
        exact hpoint _ rfl
    rw [readFraction?.eq_2 _ hnone]

theorem looksNoFurther_readPower? (negative : Bool) : LooksNoFurther (readPower? negative) := by
  intro text rest power more hmore h
  obtain ⟨⟨digits, rest'⟩, hdigits, heq⟩ := Option.map_eq_some_iff.mp h
  cases heq
  rw [readPower?, looksNoFurther_someDecimals? hmore hdigits]
  rfl

/-- Whether an exponent follows is decided by one letter, and its sign is read like any other. -/
theorem readExponent?_cons {c : Char} (hc : c = 'e' ∨ c = 'E') (text : List Char) :
    readExponent? (c :: text)
      = readPower? (Reader.sign text).1 (Reader.sign text).2 := by
  rcases hc with rfl | rfl <;> unfold Reader.sign readExponent? <;> split <;> simp_all

theorem readExponent?_of_ne (h : ∀ c ∈ text.head?, c ≠ 'e' ∧ c ≠ 'E') :
    readExponent? text = some (none, text) := by
  cases text with
  | nil => rfl
  | cons c text =>
    obtain ⟨he, hE⟩ := h c rfl
    unfold readExponent?
    split <;> simp_all

theorem sign_append (hne : text ≠ []) (more : List Char) :
    Reader.sign (text ++ more) = ((Reader.sign text).1, (Reader.sign text).2 ++ more) := by
  cases text with
  | nil => exact absurd rfl hne
  | cons c text =>
    rw [List.cons_append]
    unfold Reader.sign
    split <;> simp_all

theorem looksNoFurther_readExponent? : LooksNoFurther readExponent? := by
  intro text rest exponent more hmore h
  -- an exponent that does not begin here does not begin behind the text either
  have hnone : (∀ c ∈ text.head?, c ≠ 'e' ∧ c ≠ 'E') →
      readExponent? (text ++ more) = some (exponent, rest ++ more) := by
    intro hletter
    rw [readExponent?_of_ne hletter] at h
    cases h
    apply readExponent?_of_ne
    cases text with
    | nil => exact fun c hc => (hmore c hc).2.2
    | cons c text => exact hletter
  cases text with
  | nil => exact hnone nofun
  | cons c text =>
    by_cases hc : c = 'e' ∨ c = 'E'
    · rw [readExponent?_cons hc] at h
      -- without a character for the power nothing would have been read
      have hne : text ≠ [] := by
        rintro rfl
        cases h
      rw [List.cons_append, readExponent?_cons hc, sign_append hne]
      exact looksNoFurther_readPower? _ hmore h
    · apply hnone
      rintro c' ⟨⟩
      exact not_or.mp hc

/-- Reads one part after another; the second may depend on the first. -/
def andThen (read? : Reader α) (next? : α → Reader β) : Reader β := fun text =>
  (read? text).bind fun x => next? x.1 x.2

theorem LooksNoFurther.andThen {read? : Reader α} {next? : α → Reader β}
    (h : LooksNoFurther read?) (hnext : ∀ a, LooksNoFurther (next? a)) :
    LooksNoFurther (andThen read? next?) := by
  intro text rest b more hmore hread
  obtain ⟨⟨a, rest'⟩, ha, hb⟩ := Option.bind_eq_some_iff.mp hread
  rw [Json.andThen, h hmore ha]
  exact hnext a hmore hb

/-- A number behind its sign. -/
def readUnsigned? (negative : Bool) : Reader Number :=
  andThen readLeading? fun whole => andThen readFraction? fun fraction =>
    andThen readExponent? fun exponent text =>
      (Number.ofLiteral? { negative, whole, fraction, exponent }).map (·, text)

theorem readNumber?_of_ne (h : text.head? ≠ some '-') :
    readNumber? text = readUnsigned? false text := by
  unfold readNumber?
  split
  next negative text' heq =>
    split at heq
    · exact absurd rfl h
    · cases heq
      simp only [readUnsigned?, andThen, Option.bind_eq_bind, Option.map_eq_bind]
      rfl

theorem readNumber?_minus (text : List Char) :
    readNumber? ('-' :: text) = readUnsigned? true text := by
  unfold readNumber?
  simp only [readUnsigned?, andThen, Option.bind_eq_bind, Option.map_eq_bind]
  rfl

theorem looksNoFurther_readUnsigned? (negative : Bool) :
    LooksNoFurther (readUnsigned? negative) := by
  refine looksNoFurther_readLeading?.andThen fun whole =>
    looksNoFurther_readFraction?.andThen fun fraction =>
      looksNoFurther_readExponent?.andThen fun exponent => ?_
  intro text rest number more _ h
  obtain ⟨number, hnumber, heq⟩ := Option.map_eq_some_iff.mp h
  cases heq
  exact Option.map_eq_some_iff.mpr ⟨_, hnumber, rfl⟩

theorem looksNoFurther_readNumber? : LooksNoFurther readNumber? := by
  intro text rest number more hmore h
  by_cases hminus : text.head? = some '-'
  · obtain ⟨text, rfl⟩ : ∃ text', text = '-' :: text' := List.head?_eq_some_iff.mp hminus
    rw [readNumber?_minus] at h
    rw [List.cons_append, readNumber?_minus]
    exact looksNoFurther_readUnsigned? true hmore h
  · rw [readNumber?_of_ne hminus] at h
    -- there is a first digit, which decides that no sign stands in front
    have hhead : (text ++ more).head? ≠ some '-' := by
      cases text with
      | nil => cases h
      | cons c text => exact hminus
    rw [readNumber?_of_ne hhead]
    exact looksNoFurther_readUnsigned? false hmore h

/-! ### Integers -/

namespace Number

/-- The text of a number is read as this number. -/
def ReadsBack (n : Number) : Prop := readNumber? n.render.toList = some (n, [])

/-- An integer fits 64 bits, signed when negative and unsigned otherwise; a fraction is finite. -/
def Fits : Number → Prop
  | .int n => -(Nat.pow 2 63 : Int) ≤ n ∧ n ≤ greatest
  | .float x => x.IsFinite

/-! ### The digits of a natural number -/

theorem le_ofDigitChars (cs : List Char) (n : Nat) : n ≤ Nat.ofDigitChars 10 cs n := by
  rw [Nat.ofDigitChars_eq_foldl]
  induction cs generalizing n with
  | nil => exact Nat.le_refl n
  | cons c cs ih =>
    calc n ≤ 10 * n + (c.toNat - '0'.toNat) := by omega
      _ ≤ _ := ih _

/-- All digits of a number that fits are taken in. -/
theorem takeWhole_ofDigitChars {cs : List Char} {n : Nat}
    (hfits : Nat.ofDigitChars 10 cs n ≤ greatest) :
    takeWhole n (cs.map fun c => c.toNat - '0'.toNat) = (Nat.ofDigitChars 10 cs n, 0) := by
  induction cs generalizing n with
  | nil => rfl
  | cons c cs ih =>
    rw [Nat.ofDigitChars_eq_foldl, List.foldl_cons, ← Nat.ofDigitChars_eq_foldl] at hfits ⊢
    have hnext : n * 10 + (c.toNat - '0'.toNat) ≤ greatest := by
      rw [Nat.mul_comm]
      exact Nat.le_trans (le_ofDigitChars cs _) hfits
    rw [List.map_cons, takeWhole, if_pos hnext, Nat.mul_comm]
    exact ih hfits

/-- The digits of a number other than zero do not begin with a zero. -/
theorem head?_toDigits_ne {n : Nat} (hn : n ≠ 0) : (Nat.toDigits 10 n).head? ≠ some '0' := by
  induction n using Nat.strongRecOn with
  | ind n ih =>
    by_cases hlt : n < 10
    · rw [Nat.toDigits_of_lt_base hlt]
      intro heq
      have hdigit := Nat.toNat_digitChar_of_lt_ten hlt
      rw [Option.some.inj heq] at hdigit
      exact hn (by simpa using hdigit)
    · -- the first digit is that of the number without its last one
      have hfirst : (Nat.toDigits 10 n).head? = (Nat.toDigits 10 (n / 10)).head? := by
        rw [Nat.toDigits_of_base_le (by omega) (by omega), List.head?_append,
          Option.or_of_isSome (List.isSome_head?.mpr Nat.toDigits_ne_nil)]
      rw [hfirst]
      exact ih (n / 10) (by omega) (by omega)

/-- Digits are read as their values. -/
theorem someDecimals?_digits {cs : List Char} (hdigits : ∀ c ∈ cs, c.isDigit = true)
    (hne : cs ≠ []) :
    Reader.someDecimals? cs = some (cs.map fun c => c.toNat - '0'.toNat, []) := by
  unfold Reader.someDecimals? Reader.decimals
  rw [List.takeWhile_eq_self_iff.mpr hdigits, List.dropWhile_eq_nil_iff.mpr hdigits]
  split
  · next heq => exact absurd (List.map_eq_nil_iff.mp (congrArg Prod.fst heq)) hne
  · next heq =>
    cases heq
    rfl

/-- So are digits before a point, if a zero in front stands alone. -/
theorem readLeading?_digits {cs : List Char} (hdigits : ∀ c ∈ cs, c.isDigit = true)
    (hne : cs ≠ []) (hlead : cs.head? = some '0' → cs.length = 1) :
    readLeading? cs = some (cs.map fun c => c.toNat - '0'.toNat, []) := by
  rw [readLeading?, someDecimals?_digits hdigits hne, Option.bind_eq_bind, Option.bind_some]
  refine if_neg ?_
  rintro ⟨hzero, hlong⟩
  rw [List.head?_map, Option.map_eq_some_iff] at hzero
  obtain ⟨c, hc, hzero⟩ := hzero
  have hdigit := Char.isDigit_iff_toNat.mp (hdigits c (List.mem_of_head? hc))
  obtain rfl : c = '0' :=
    Char.toNat_inj.mp (Nat.le_antisymm (Nat.le_of_sub_eq_zero hzero) hdigit.1)
  rw [List.length_map, hlead hc] at hlong
  exact absurd hlong (by decide)

theorem isDigit_toDigits (n : Nat) : ∀ c ∈ Nat.toDigits 10 n, c.isDigit = true :=
  fun _ hc => Nat.isDigit_of_mem_toDigits (by omega) (by omega) hc

theorem readLeading?_toDigits (n : Nat) :
    readLeading? (Nat.toDigits 10 n)
      = some ((Nat.toDigits 10 n).map fun c => c.toNat - '0'.toNat, []) := by
  refine readLeading?_digits (isDigit_toDigits n) Nat.toDigits_ne_nil fun hzero => ?_
  by_cases hn : n = 0
  · rw [hn, Nat.toDigits_zero]
    rfl
  · exact absurd hzero (head?_toDigits_ne hn)

/-- A natural number behind a sign is read as the literal of its digits. -/
theorem readUnsigned?_toDigits (negative : Bool) (n : Nat) :
    readUnsigned? negative (Nat.toDigits 10 n)
      = (ofLiteral? ⟨negative, (Nat.toDigits 10 n).map fun c => c.toNat - '0'.toNat, none,
          none⟩).map (·, []) := by
  rw [readUnsigned?, andThen, readLeading?_toDigits]
  rfl

theorem takeWhole_toDigits {n : Nat} (hfits : n ≤ greatest) :
    takeWhole 0 ((Nat.toDigits 10 n).map fun c => c.toNat - '0'.toNat) = (n, 0) := by
  have hn : Nat.ofDigitChars 10 (Nat.toDigits 10 n) 0 = n :=
    Nat.ofDigitChars_toDigits (by omega) (by omega)
  rw [takeWhole_ofDigitChars (by rwa [hn]), hn]

/-- Integers that fit are read as they are written. -/
theorem readsBack_int {n : Int} (hfits : (Number.int n).Fits) : (Number.int n).ReadsBack := by
  obtain ⟨hlow, hhigh⟩ := hfits
  cases n with
  | ofNat n =>
    have htext : (Number.int (.ofNat n)).render.toList = Nat.toDigits 10 n := Nat.toList_repr
    -- a digit in front means that there is no sign to read
    have hplain : (Nat.toDigits 10 n).head? ≠ some '-' := by
      intro hminus
      have hdigit : Char.isDigit '-' = true :=
        Nat.isDigit_of_mem_toDigits (by omega) (by omega) (List.mem_of_head? hminus)
      cases hdigit
    rw [ReadsBack, htext, readNumber?_of_ne hplain, readUnsigned?_toDigits, ofLiteral?,
      takeWhole_toDigits (Int.ofNat_le.mp hhigh)]
    rfl
  | negSucc n =>
    have htext : (Number.int (.negSucc n)).render.toList = '-' :: Nat.toDigits 10 (n + 1) := by
      change ("-" ++ (n + 1).repr).toList = _
      rw [String.toList_append, Nat.toList_repr]
      rfl
    -- behind the minus any magnitude up to the unsigned bound is taken, and more than is needed fits
    have hbound : n + 1 ≤ Nat.pow 2 63 := by omega
    have hgreatest : Nat.pow 2 63 ≤ greatest := by decide
    rw [ReadsBack, htext, readNumber?_minus, readUnsigned?_toDigits, ofLiteral?,
      takeWhole_toDigits (Nat.le_trans hbound hgreatest)]
    dsimp only
    rw [if_pos rfl, if_neg (by omega)]
    rfl

/-! ### What is read -/

theorem takeWhole_le {n : Nat} (digits : List Nat) (hn : n ≤ greatest) :
    (takeWhole n digits).1 ≤ greatest := by
  induction digits generalizing n with
  | nil => exact hn
  | cons digit digits ih =>
    rw [takeWhole]
    split
    · next hnext => exact ih hnext
    · exact hn

/-- A literal denotes no number that does not fit. -/
theorem fits_of_ofLiteral? {l : Literal} {n : Number} (h : ofLiteral? l = some n) : n.Fits := by
  have hle := takeWhole_le l.whole (Nat.zero_le greatest)
  unfold ofLiteral? at h
  dsimp only at h
  split at h
  · split at h
    · split at h
      · obtain ⟨x, hx, rfl⟩ := Option.map_eq_some_iff.mp h
        exact Binary64.isFinite_of_ofNat? hx
      · next hguard =>
        cases h
        exact ⟨by omega, by omega⟩
    · cases h
      exact ⟨by omega, by omega⟩
  · obtain ⟨x, hx, rfl⟩ := Option.map_eq_some_iff.mp h
    exact isFinite_of_scale? hx

end Number

/-- A number begins with a minus sign or a digit. -/
theorem exists_cons_of_readNumber? {n : Number} (h : readNumber? text = some (n, rest)) :
    ∃ c text', text = c :: text' ∧ (c = '-' ∨ c.isDigit = true) := by
  cases text with
  | nil => cases h
  | cons c text =>
    refine ⟨c, text, rfl, ?_⟩
    by_cases hminus : c = '-'
    · exact Or.inl hminus
    · have hhead : (c :: text).head? ≠ some '-' := fun heq => hminus (Option.some.inj heq)
      rw [readNumber?_of_ne hhead] at h
      obtain ⟨whole, hleading, -⟩ := Option.bind_eq_some_iff.mp h
      obtain ⟨digits, hdigits, -⟩ := Option.bind_eq_some_iff.mp hleading
      -- without a first digit there are no digits at all
      refine Or.inr (Bool.of_not_eq_false fun hc => ?_)
      rw [Reader.someDecimals?, Reader.decimals, List.takeWhile_cons, hc] at hdigits
      cases hdigits

/-- No number is read that does not fit. -/
theorem fits_of_readNumber? {n : Number} (h : readNumber? text = some (n, rest)) : n.Fits := by
  obtain ⟨negative, text, hsign⟩ :
      ∃ negative text', readNumber? text = readUnsigned? negative text' := by
    by_cases hminus : text.head? = some '-'
    · obtain ⟨text, rfl⟩ : ∃ text', text = '-' :: text' := List.head?_eq_some_iff.mp hminus
      exact ⟨true, text, readNumber?_minus text⟩
    · exact ⟨false, text, readNumber?_of_ne hminus⟩
  rw [hsign] at h
  obtain ⟨whole, -, h⟩ := Option.bind_eq_some_iff.mp h
  obtain ⟨fraction, -, h⟩ := Option.bind_eq_some_iff.mp h
  obtain ⟨exponent, -, h⟩ := Option.bind_eq_some_iff.mp h
  obtain ⟨number, hliteral, heq⟩ := Option.map_eq_some_iff.mp h
  cases heq
  exact Number.fits_of_ofLiteral? hliteral

end Targeting.Json
