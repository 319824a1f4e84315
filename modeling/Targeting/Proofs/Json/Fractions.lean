import Targeting.Proofs.Decimal.Shortest
import Targeting.Proofs.Json.Numbers

/-!
# Fractions in JSON text

A fraction is written with digits that identify it, but is read with one rounding more than would be
exact, so it need not read back. Still its text is read as some number: however the fraction is spelt,
the text keeps to the grammar, and the roundings do not lead beyond the finite values.

## Main definitions

* `Json.Number.ArePointed` — digits in front of a point and behind it

## Main results

* `Json.Number.exists_readUnsigned?_positional`, `Json.Number.exists_readUnsigned?_scientific` — both
  ways to spell a fraction are read
* `Json.Number.Fits.exists_readNumber?` — the text of a number that fits is read
-/

namespace Targeting.Json.Number

variable {negative : Bool} {n : Nat} {cs text rest : List Char}

/-- The values of digits. -/
def digitValues (cs : List Char) : List Nat := cs.map fun c => c.toNat - '0'.toNat

/-! ### Literals -/

/-- Digits in front of a point, without idle zeros, and digits behind it. -/
structure ArePointed (whole fraction : List Char) : Prop where
  isDigit_whole : ∀ c ∈ whole, c.isDigit = true
  whole_ne_nil : whole ≠ []
  length_of_zero : whole.head? = some '0' → whole.length = 1
  isDigit_fraction : ∀ c ∈ fraction, c.isDigit = true
  fraction_ne_nil : fraction ≠ []

theorem ArePointed.readUnsigned?_eq {whole fraction : List Char} (h : ArePointed whole fraction)
    (negative : Bool) :
    readUnsigned? negative (whole ++ '.' :: fraction)
      = (ofLiteral? ⟨negative, digitValues whole, some (digitValues fraction), none⟩).map
        (·, []) := by
  have hpoint : EndsDigits ('.' :: fraction) := by
    rintro c ⟨⟩
    rfl
  have hleading := readLeading?_append hpoint
    (readLeading?_digits h.isDigit_whole h.whole_ne_nil h.length_of_zero)
  have hbehind : readFraction? ('.' :: fraction) = some (some (digitValues fraction), []) := by
    rw [readFraction?, someDecimals?_digits h.isDigit_fraction h.fraction_ne_nil]
    rfl
  rw [readUnsigned?, andThen, hleading, Option.bind_some, andThen, List.nil_append, hbehind]
  rfl

/-- The text of an exponent. -/
def exponentText (power : Int) : List Char :=
  'e' :: (if power < 0 then '-' else '+') :: Nat.toDigits 10 power.natAbs

theorem readExponent?_exponentText (power : Int) :
    readExponent? (exponentText power) = some (some power, []) := by
  have hnumber : Digit.number 10 (digitValues (Nat.toDigits 10 power.natAbs)) = power.natAbs := by
    rw [Digit.number, digitValues, List.foldl_map, ← Nat.ofDigitChars_eq_foldl]
    exact Nat.ofDigitChars_toDigits (by omega) (by omega)
  have hdigits := someDecimals?_digits (isDigit_toDigits power.natAbs) Nat.toDigits_ne_nil
  -- the sign is always written, so the digits are those of the absolute value
  have hpower : ∀ negative, readPower? negative (Nat.toDigits 10 power.natAbs)
      = some (some (if negative then -(power.natAbs : Int) else power.natAbs), []) := by
    intro negative
    rw [readPower?, hdigits]
    change some (some (if negative then -(Digit.number 10 (digitValues _) : Int)
      else Digit.number 10 (digitValues _)), ([] : List Char)) = _
    rw [hnumber]
  rw [exponentText, readExponent?_cons (Or.inl rfl)]
  by_cases hneg : power < 0
  · rw [if_pos hneg]
    change readPower? true (Nat.toDigits 10 power.natAbs) = _
    rw [hpower, if_pos rfl]
    congr
    omega
  · rw [if_neg hneg]
    change readPower? false (Nat.toDigits 10 power.natAbs) = _
    rw [hpower, if_neg Bool.false_ne_true]
    congr
    omega

theorem endsDigits_exponentText (power : Int) : EndsDigits (exponentText power) := by
  rintro c ⟨⟩
  rfl

/-- One digit, further digits behind a point if there are any, and an exponent. -/
theorem readUnsigned?_scientific (negative : Bool) {c : Char} {fraction : List Char} (power : Int)
    (hc : c.isDigit = true) (hfraction : ∀ c ∈ fraction, c.isDigit = true) :
    readUnsigned? negative
        ((c :: if fraction = [] then [] else '.' :: fraction) ++ exponentText power)
      = (ofLiteral? ⟨negative, digitValues [c],
          if fraction = [] then none else some (digitValues fraction), some power⟩).map
        (·, []) := by
  have hleading : readLeading? [c] = some (digitValues [c], []) :=
    readLeading?_digits (by simpa using hc) (List.cons_ne_nil _ _) fun _ => rfl
  by_cases hnil : fraction = []
  · have hfirst := readLeading?_append (endsDigits_exponentText power) hleading
    rw [if_pos hnil, if_pos hnil, readUnsigned?, andThen, hfirst, Option.bind_some, andThen]
    change (readExponent? (exponentText power)).bind _ = _
    rw [readExponent?_exponentText]
    rfl
  · have hpoint : EndsDigits ('.' :: fraction ++ exponentText power) := by
      rintro c ⟨⟩
      rfl
    have hfirst := readLeading?_append hpoint hleading
    have hbehind : readFraction? ('.' :: fraction ++ exponentText power)
        = some (some (digitValues fraction), exponentText power) := by
      rw [List.cons_append, readFraction?, someDecimals?_append (endsDigits_exponentText power)
        (someDecimals?_digits hfraction hnil)]
      rfl
    rw [if_neg hnil, if_neg hnil, List.cons_append, readUnsigned?, andThen]
    change (readLeading? ([c] ++ ('.' :: fraction ++ exponentText power))).bind _ = _
    rw [hfirst, Option.bind_some, andThen]
    change (readFraction? ('.' :: fraction ++ exponentText power)).bind _ = _
    rw [hbehind, Option.bind_some, andThen, readExponent?_exponentText]
    rfl

/-! ### What a literal denotes -/

theorem takeWhole_snd_le (n : Nat) (digits : List Nat) :
    (takeWhole n digits).2 ≤ digits.length := by
  induction digits generalizing n with
  | nil => exact Nat.le_refl 0
  | cons digit digits ih =>
    rw [takeWhole]
    split
    · exact Nat.le_succ_of_le (ih _)
    · exact Nat.le_refl _

theorem mul_pow_le_ofDigitChars (cs : List Char) (n : Nat) :
    n * 10 ^ cs.length ≤ Nat.ofDigitChars 10 cs n := by
  rw [Nat.ofDigitChars_eq_foldl]
  induction cs generalizing n with
  | nil => simp
  | cons c cs ih =>
    calc n * 10 ^ (c :: cs).length = 10 * n * 10 ^ cs.length := by
          rw [List.length_cons, Nat.pow_succ]
          ring
      _ ≤ (10 * n + (c.toNat - '0'.toNat)) * 10 ^ cs.length :=
        Nat.mul_le_mul_right _ (Nat.le_add_right _ _)
      _ ≤ _ := ih _

/-- Digits behind the point that do not fit are left out, so the significand becomes no greater. -/
theorem takeFraction_spec (hn : n ≤ greatest) (cs : List Char) :
    (takeFraction n (digitValues cs)).1 ≤ greatest ∧
      (takeFraction n (digitValues cs)).2 ≤ cs.length ∧
      (takeFraction n (digitValues cs)).1
          * 10 ^ (cs.length - (takeFraction n (digitValues cs)).2)
        ≤ Nat.ofDigitChars 10 cs n := by
  induction cs generalizing n with
  | nil => exact ⟨hn, Nat.le_refl 0, by simp [digitValues, takeFraction]⟩
  | cons c cs ih =>
    rw [digitValues, List.map_cons, takeFraction, ← digitValues]
    split
    · next hnext =>
      obtain ⟨hle, hcount, hvalue⟩ := ih hnext
      refine ⟨hle, Nat.succ_le_succ hcount, ?_⟩
      rw [Nat.ofDigitChars_eq_foldl, List.foldl_cons, ← Nat.ofDigitChars_eq_foldl,
        List.length_cons, Nat.succ_sub_succ, Nat.mul_comm 10]
      exact hvalue
    · exact ⟨hn, Nat.zero_le _, mul_pow_le_ofDigitChars (c :: cs) n⟩

theorem le_safeLimit_of_le {q : ℚ} (h : q ≤ 10 ^ 308) : q ≤ safeLimit := by
  have hpowers : 10 ^ 308 ≤ (2 ^ 54 - 16) * 2 ^ 970 := by decide +kernel
  have hpowers' : (10 : ℚ) ^ 308 ≤ ((2 ^ 54 - 16 : Nat) : ℚ) * 2 ^ 970 := by exact_mod_cast hpowers
  have hcast : ((2 ^ 54 - 16 : Nat) : ℚ) = 2 ^ 54 - 16 := by norm_num
  rw [safeLimit, ← hcast]
  exact h.trans hpowers'

/-- A literal with a point and not too many digits in front of it denotes a number. -/
theorem exists_ofLiteral?_point (negative : Bool) {whole : List Char} (fraction : List Char)
    (hshort : whole.length ≤ 20) : ∃ number,
      ofLiteral? ⟨negative, digitValues whole, some (digitValues fraction), none⟩
        = some number := by
  have hfits := takeWhole_le (digitValues whole) (Nat.zero_le greatest)
  obtain ⟨hle, hcount, -⟩ := takeFraction_spec hfits fraction
  have hdropped := takeWhole_snd_le 0 (digitValues whole)
  rw [digitValues, List.length_map, ← digitValues] at hdropped
  have hliteral : ofLiteral? ⟨negative, digitValues whole, some (digitValues fraction), none⟩
      = (scale? negative
          (takeFraction (takeWhole 0 (digitValues whole)).1 (digitValues fraction)).1
          ((takeWhole 0 (digitValues whole)).2
            - (takeFraction (takeWhole 0 (digitValues whole)).1 (digitValues fraction)).2
            + 0)).map .float := rfl
  -- only the bounds on what was taken and left out count from here on
  generalize takeFraction (takeWhole 0 (digitValues whole)).1 (digitValues fraction) = taken
    at hle hcount hliteral
  generalize (takeWhole 0 (digitValues whole)).2 = dropped at hdropped hliteral
  have hsafe : (taken.1 * 10 ^ ((dropped : Int) - taken.2 + 0) : ℚ) ≤ safeLimit := by
    apply le_safeLimit_of_le
    have htaken : taken.1 ≤ 10 ^ 20 := hle.trans (by decide)
    have htaken' : (taken.1 : ℚ) ≤ 10 ^ 20 := by exact_mod_cast htaken
    have hpower : (10 : ℚ) ^ ((dropped : Int) - taken.2 + 0) ≤ 10 ^ (20 : Int) :=
      zpow_le_zpow_right₀ (by norm_num) (by omega)
    rw [zpow_ofNat] at hpower
    calc (taken.1 * 10 ^ ((dropped : Int) - taken.2 + 0) : ℚ) ≤ 10 ^ 20 * 10 ^ 20 := by gcongr
      _ = 10 ^ 40 := by norm_num
      _ ≤ 10 ^ 308 := pow_le_pow_right₀ (by norm_num) (by decide)
  obtain ⟨x, hx⟩ := exists_scale? negative hle hsafe
  exact ⟨.float x, by rw [hliteral, hx]; rfl⟩

/-- A literal with one digit in front of the point and an exponent denotes a number, if the decimal
number that it spells is within the limit. -/
theorem exists_ofLiteral?_scientific (negative : Bool) {c : Char} {fraction : List Char}
    {power : Int} (hc : c.isDigit = true)
    (hsafe : (Nat.ofDigitChars 10 (c :: fraction) 0 * 10 ^ (power - fraction.length) : ℚ)
      ≤ safeLimit) : ∃ number,
      ofLiteral? ⟨negative, digitValues [c],
        if fraction = [] then none else some (digitValues fraction), some power⟩ = some number := by
  have hvalue : c.toNat - '0'.toNat ≤ 9 := by
    have hdigit := Char.isDigit_iff_toNat.mp hc
    change c.toNat - 48 ≤ 9
    change 48 ≤ c.toNat ∧ c.toNat ≤ 57 at hdigit
    omega
  have hgreatest : c.toNat - '0'.toNat ≤ greatest := hvalue.trans (by decide)
  have hwhole : takeWhole 0 (digitValues [c]) = (c.toNat - '0'.toNat, 0) := by
    rw [digitValues, List.map_singleton, takeWhole, Nat.zero_mul, Nat.zero_add, if_pos hgreatest]
    rfl
  -- what does not fit is cut off, which makes the number no greater than what is spelt
  obtain ⟨hle, hcount, htaken⟩ := takeFraction_spec hgreatest fraction
  have hliteral : ofLiteral? ⟨negative, digitValues [c],
        if fraction = [] then none else some (digitValues fraction), some power⟩
      = (scale? negative (takeFraction (c.toNat - '0'.toNat) (digitValues fraction)).1
          ((0 : Nat) - (takeFraction (c.toNat - '0'.toNat) (digitValues fraction)).2
            + power)).map .float := by
    rw [ofLiteral?, hwhole]
    by_cases hnil : fraction = []
    · rw [if_pos hnil, hnil]
      rfl
    · rw [if_neg hnil]
      rfl
  generalize takeFraction (c.toNat - '0'.toNat) (digitValues fraction) = taken
    at hle hcount htaken hliteral
  have hlimit : (taken.1 * 10 ^ ((0 : Nat) - taken.2 + power) : ℚ) ≤ safeLimit := by
    have hdigits : (taken.1 * 10 ^ (fraction.length - taken.2) : ℚ)
        ≤ Nat.ofDigitChars 10 (c :: fraction) 0 := by
      rw [Nat.ofDigitChars_eq_foldl, List.foldl_cons, ← Nat.ofDigitChars_eq_foldl, Nat.mul_zero,
        Nat.zero_add]
      exact_mod_cast htaken
    have hpower : (10 : ℚ) ^ ((0 : Nat) - taken.2 + power)
        = 10 ^ (fraction.length - taken.2) * 10 ^ (power - fraction.length) := by
      rw [← zpow_natCast, Nat.cast_sub hcount, ← zpow_add₀ (by norm_num)]
      congr 1
      push_cast
      ring
    calc (taken.1 * 10 ^ ((0 : Nat) - taken.2 + power) : ℚ)
        = taken.1 * 10 ^ (fraction.length - taken.2) * 10 ^ (power - fraction.length) := by
          rw [hpower, mul_assoc]
      _ ≤ Nat.ofDigitChars 10 (c :: fraction) 0 * 10 ^ (power - fraction.length) := by gcongr
      _ ≤ safeLimit := hsafe
  obtain ⟨x, hx⟩ := exists_scale? negative hle hlimit
  exact ⟨.float x, by rw [hliteral, hx]; rfl⟩

/-! ### Decimals -/

section Decimals

variable {d : Decimal}

theorem isDigit_digitChars (d : Decimal) : ∀ c ∈ d.digitChars, c.isDigit = true :=
  isDigit_toDigits d.digits

theorem digitChars_ne_nil (d : Decimal) : d.digitChars ≠ [] := Nat.toDigits_ne_nil

theorem head?_digitChars_ne (hne : d.digits ≠ 0) : d.digitChars.head? ≠ some '0' :=
  head?_toDigits_ne hne

theorem isDigit_zeros (k : Nat) : ∀ c ∈ List.replicate k '0', c.isDigit = true := by
  intro c hc
  rw [(List.mem_replicate.mp hc).2]
  rfl

/-- The point may stand behind all digits and further zeros, unless it is zeros behind a zero. -/
theorem arePointed_behind (hzero : d.digits = 0 → d.scale = 0) :
    ArePointed (d.digitChars ++ List.replicate d.scale.toNat '0') ['0'] where
  isDigit_whole := List.forall_mem_append.mpr ⟨isDigit_digitChars d, isDigit_zeros _⟩
  whole_ne_nil := by simp [digitChars_ne_nil]
  length_of_zero hhead := by
    rw [List.head?_append_of_ne_nil _ (digitChars_ne_nil d)] at hhead
    have hdigit : d.digits = 0 := by
      by_contra hne
      exact head?_digitChars_ne hne hhead
    rw [hzero hdigit, Decimal.digitChars, hdigit]
    rfl
  isDigit_fraction := by simp
  fraction_ne_nil := List.cons_ne_nil _ _

/-- The point may stand between two digits, in front of the given number of places. -/
theorem arePointed_within (hne : d.digits ≠ 0) {places : Nat} (hpos : 0 < places)
    (hplaces : places < d.digitChars.length) :
    ArePointed (d.digitChars.take (d.digitChars.length - places))
      (d.digitChars.drop (d.digitChars.length - places)) where
  isDigit_whole c hc := isDigit_digitChars d c (List.mem_of_mem_take hc)
  whole_ne_nil := by
    rw [← List.length_pos_iff, List.length_take]
    omega
  length_of_zero hhead := by
    rw [List.head?_take, if_neg (by omega)] at hhead
    exact absurd hhead (head?_digitChars_ne hne)
  isDigit_fraction c hc := isDigit_digitChars d c (List.mem_of_mem_drop hc)
  fraction_ne_nil := by
    rw [← List.length_pos_iff, List.length_drop]
    omega

/-- The point may stand in front of all digits and zeros before them, behind a zero. -/
theorem arePointed_before (d : Decimal) (k : Nat) :
    ArePointed ['0'] (List.replicate k '0' ++ d.digitChars) where
  isDigit_whole := by simp
  whole_ne_nil := List.cons_ne_nil _ _
  length_of_zero _ := rfl
  isDigit_fraction := List.forall_mem_append.mpr ⟨isDigit_zeros _, isDigit_digitChars d⟩
  fraction_ne_nil := by simp [digitChars_ne_nil]

/-- A decimal that is not too great has few digits in front of the point where it is written
positionally. -/
theorem exists_arePointed (hzero : d.digits = 0 → d.scale = 0) (hpower : d.leadingPower < 16) :
    ∃ whole fraction, layout.positional d = whole ++ '.' :: fraction ∧
      ArePointed whole fraction ∧ whole.length ≤ 20 := by
  have hlength : 0 < d.digitChars.length := List.length_pos_iff.mpr (digitChars_ne_nil d)
  rw [Decimal.leadingPower] at hpower
  rw [Layout.positional]
  dsimp only
  -- the point stands behind all digits, between two of them or in front
  split
  · refine ⟨_, _, rfl, arePointed_behind hzero, ?_⟩
    rw [List.length_append, List.length_replicate]
    omega
  · next hscale =>
    have hne : d.digits ≠ 0 := fun hdigit => hscale (hzero hdigit).ge
    split
    · next hplaces =>
      refine ⟨_, _, rfl, arePointed_within hne (by omega) hplaces, ?_⟩
      rw [List.length_take]
      omega
    · exact ⟨_, _, rfl, arePointed_before d _, by simp⟩

/-- A decimal that is written positionally is read, if it is not too great. A zero must be written
without an exponent. -/
theorem exists_readUnsigned?_positional (negative : Bool) (hzero : d.digits = 0 → d.scale = 0)
    (hpower : d.leadingPower < 16) :
    ∃ number, readUnsigned? negative (layout.positional d) = some (number, []) := by
  obtain ⟨whole, fraction, htext, hpointed, hshort⟩ := exists_arePointed hzero hpower
  obtain ⟨number, hnumber⟩ := exists_ofLiteral?_point negative fraction hshort
  refine ⟨number, ?_⟩
  rw [htext, hpointed.readUnsigned?_eq, hnumber]
  rfl

/-- A decimal within the limit that is written with an exponent is read. -/
theorem exists_readUnsigned?_scientific (negative : Bool) (hsafe : d.value ≤ safeLimit) :
    ∃ number, readUnsigned? negative (Layout.scientific d) = some (number, []) := by
  obtain ⟨c, fraction, hchars⟩ := List.exists_cons_of_ne_nil (digitChars_ne_nil d)
  have hdigits := isDigit_digitChars d
  rw [hchars] at hdigits
  have htext : Layout.scientific d
      = (c :: if fraction = [] then [] else '.' :: fraction) ++ exponentText d.leadingPower := by
    rw [Layout.scientific, hchars]
    cases fraction <;> rfl
  -- what is spelt is the decimal itself
  have hvalue : Nat.ofDigitChars 10 (c :: fraction) 0 = d.digits := by
    rw [← hchars]
    exact Nat.ofDigitChars_toDigits (by omega) (by omega)
  have hscale : d.leadingPower - fraction.length = d.scale := by
    rw [Decimal.leadingPower, hchars, List.length_cons]
    push_cast
    ring
  have hlimit : (Nat.ofDigitChars 10 (c :: fraction) 0 * 10 ^ (d.leadingPower - fraction.length) : ℚ)
      ≤ safeLimit := by
    rw [hvalue, hscale]
    exact hsafe
  obtain ⟨number, hnumber⟩ :=
    exists_ofLiteral?_scientific negative (hdigits c List.mem_cons_self) hlimit
  refine ⟨number, ?_⟩
  rw [htext, readUnsigned?_scientific negative d.leadingPower (hdigits c List.mem_cons_self)
    fun c hc => hdigits c (List.mem_cons_of_mem _ hc), hnumber]
  rfl

end Decimals

/-! ### Fractions -/

/-- A number is read if it is read behind its sign. -/
theorem exists_readNumber?_of_sign {negative : Bool}
    (h : ∃ number, readUnsigned? negative text = some (number, [])) :
    ∃ number, readNumber? (if negative then '-' :: text else text) = some (number, []) := by
  obtain ⟨number, hnumber⟩ := h
  refine ⟨number, ?_⟩
  cases negative with
  | true => rwa [if_pos rfl, readNumber?_minus]
  | false =>
    rw [if_neg Bool.false_ne_true, readNumber?_of_ne, hnumber]
    intro hminus
    obtain ⟨text, rfl⟩ := List.head?_eq_some_iff.mp hminus
    cases hnumber

/-- The greatest values, whose decimals are beyond the limit or almost, are read as well. -/
theorem readNumber?_greatest : ∀ (negative : Bool) (k : Fin 8),
    (readNumber? (Number.float ⟨negative, 2 ^ 53 - 1 - k, 971⟩).render.toList).map (·.2)
      = some [] := by
  decide +kernel

/-- All other values leave room for their decimals. -/
theorem value_shortest_le_safeLimit {x : Binary64} (hfinite : x.IsFinite) (hpos : 0 < x.significand)
    (hbelow : x.exponent < 971 ∨ x.significand < 2 ^ 53 - 8) :
    (x.shortest .toEven).value ≤ safeLimit := by
  obtain ⟨hsignificand, hexponent⟩ := hfinite
  obtain ⟨-, hinside | hsmall⟩ := Binary64.shortest_spec .toEven ⟨hsignificand, hexponent⟩ hpos
  · have hpower : ∀ e : Int, x.exponent ≤ e → (2 : ℚ) ^ x.exponent ≤ 2 ^ e := fun e he =>
      zpow_le_zpow_right₀ one_le_two he
    have hdouble : (2 : ℚ) ^ (971 : Int) = 2 * 2 ^ 970 := by
      rw [zpow_ofNat, pow_succ']
    refine hinside.trans ?_
    rw [safeLimit]
    -- the exponent is below the greatest one, or the significand keeps some distance to its bound
    rcases hbelow with hless | hless
    · have hle := hpower 970 (by omega)
      have hsignificand' : (x.significand : ℚ) + 1 / 2 ≤ 2 ^ 54 - 16 := by
        have hcast : (x.significand : ℚ) < 2 ^ 53 := by exact_mod_cast hsignificand
        linarith
      rw [zpow_ofNat] at hle
      exact mul_le_mul hsignificand' hle (by positivity) (by norm_num)
    · have hle := hpower 971 hexponent
      have hsignificand' : (x.significand : ℚ) + 1 / 2 ≤ 2 ^ 53 - 8 := by
        have hnat : x.significand + 9 ≤ 2 ^ 53 := by omega
        have hcast : (x.significand : ℚ) + 9 ≤ 2 ^ 53 := by exact_mod_cast hnat
        linarith
      calc ((x.significand + 1 / 2) * 2 ^ x.exponent : ℚ)
          ≤ (2 ^ 53 - 8) * (2 * 2 ^ 970) :=
            mul_le_mul hsignificand' (hle.trans_eq hdouble) (by positivity) (by norm_num)
        _ = (2 ^ 54 - 16) * 2 ^ 970 := by
          generalize (2 : ℚ) ^ 970 = unit
          ring
  · apply le_safeLimit_of_le
    calc (x.shortest .toEven).value ≤ 2 ^ 55 * 10 ^ 290 := hsmall
      _ ≤ 10 ^ 18 * 10 ^ 290 := by gcongr; norm_num
      _ = 10 ^ 308 := (pow_add 10 18 290).symm

/-- A finite fraction is read from its text. -/
theorem exists_readNumber?_float {x : Binary64} (hfinite : x.IsFinite) :
    ∃ number, readNumber? (Number.float x).render.toList = some (number, []) := by
  by_cases htop : x.exponent = 971 ∧ 2 ^ 53 - 8 ≤ x.significand
  · obtain ⟨hexponent, hsignificand⟩ := htop
    have hlt := hfinite.1
    -- the bound on the interval is too weak for these eight, so they are read one by one
    have hgreatest := readNumber?_greatest x.negative ⟨2 ^ 53 - 1 - x.significand, by omega⟩
    have hx : (⟨x.negative, 2 ^ 53 - 1 - (2 ^ 53 - 1 - x.significand), 971⟩ : Binary64) = x := by
      obtain ⟨negative, significand, exponent⟩ := x
      dsimp only at hexponent hsignificand hlt ⊢
      congr
      · omega
      · exact hexponent.symm
    dsimp only at hgreatest
    rw [hx] at hgreatest
    obtain ⟨⟨number, rest⟩, hread, hrest⟩ := Option.map_eq_some_iff.mp hgreatest
    cases hrest
    exact ⟨number, hread⟩
  · change ∃ number, readNumber? (layout.render x).toList = some (number, [])
    rw [Layout.render, String.toList_ofList]
    apply exists_readNumber?_of_sign
    split
    · exact exists_readUnsigned?_positional x.negative (fun _ => rfl) (by decide)
    · next hzero =>
      have hpos : 0 < x.significand := by
        rw [Nat.pos_iff_ne_zero]
        exact fun hnone => hzero (beq_iff_eq.mpr hnone)
      dsimp only
      split
      · next hpositional =>
        obtain ⟨-, hlimit⟩ := Bool.and_eq_true_iff.mp hpositional
        refine exists_readUnsigned?_positional x.negative (fun hnone => ?_)
          (of_decide_eq_true hlimit)
        exact absurd hnone (Binary64.shortest_spec .toEven hfinite hpos).1.ne'
      · refine exists_readUnsigned?_scientific x.negative
          (value_shortest_le_safeLimit hfinite hpos ?_)
        have hle := hfinite.2
        rw [Binary64.greatestExponent] at hle
        omega

/-- A number that fits is read from its text, though perhaps as another one. -/
theorem Fits.exists_readNumber? {number : Number} (h : number.Fits) :
    ∃ number', readNumber? number.render.toList = some (number', []) := by
  cases number with
  | int n => exact ⟨_, readsBack_int h⟩
  | float x => exact exists_readNumber?_float h

end Targeting.Json.Number
