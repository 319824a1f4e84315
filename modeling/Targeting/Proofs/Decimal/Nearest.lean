import Mathlib.Algebra.Order.Field.Power
import Mathlib.Tactic.FieldSimp
import Mathlib.Tactic.Linarith
import Mathlib.Tactic.NormNum
import Mathlib.Tactic.Positivity
import Mathlib.Tactic.Ring
import Targeting.Decimal.Binary64

/-!
# Rounding to the nearest value

A quotient below the midpoint between the greatest finite value and the next power of two has a
nearest finite value. From a quotient of the normal range it differs by one part in `2 ^ 53` at most.

## Main definitions

* `Binary64.magnitude` — the magnitude of a value as a rational number
* `Binary64.IsFinite` — the significand has at most 53 bits and the exponent is in range
* `Binary64.limit` — the least quotient that is beyond every finite value

## Main results

* `Binary64.exponentOf_spec` — the significand of a quotient has 53 bits, or the exponent is the
  least one
* `Binary64.exists_nearestQuotient?` — a quotient below the limit has a nearest value
* `Binary64.isFinite_of_nearestQuotient?`, `Binary64.magnitude_of_nearestQuotient?` — it is finite
  and near
-/

namespace Targeting.Binary64

variable {num den : Nat} {negative : Bool} {x y : Binary64} {q : ℚ}

/-- The magnitude of a value. -/
def magnitude (x : Binary64) : ℚ := x.significand * 2 ^ x.exponent

/-- The significand has at most 53 bits and the exponent is in range. -/
def IsFinite (x : Binary64) : Prop := x.significand < 2 ^ 53 ∧ x.exponent ≤ greatestExponent

/-- The midpoint between the greatest finite value and the next power of two. -/
def limit : ℚ := 2 ^ 1024 - 2 ^ 970

theorem limit_add : limit + 2 ^ (971 : Int) / 2 = 2 ^ 53 * 2 ^ (971 : Int) := by
  have hone : (2 : ℚ) ^ 971 = 2 ^ 970 * 2 := pow_succ 2 970
  have hall : (2 : ℚ) ^ 1024 = 2 ^ 53 * 2 ^ 971 := pow_add 2 53 971
  rw [limit, zpow_ofNat, hall, hone]
  generalize (2 : ℚ) ^ 970 = unit
  ring

theorem magnitude_nonneg (x : Binary64) : 0 ≤ x.magnitude := by
  unfold magnitude
  positivity

/-! ### Quotients -/

theorem shiftQuotient_eq (num den : Nat) (shift : Int) :
    ((shiftQuotient num den shift).1 : ℚ) / (shiftQuotient num den shift).2
      = num / den * 2 ^ shift := by
  unfold shiftQuotient
  obtain ⟨k, rfl | rfl⟩ := Int.eq_nat_or_neg shift
  · simp
    ring
  · simp
    ring

theorem shiftQuotient_snd_pos (hden : 0 < den) (num : Nat) (shift : Int) :
    0 < (shiftQuotient num den shift).2 :=
  Nat.mul_pos hden (Nat.pow_pos (by decide))

/-- Rounding to a natural number is off by a half at most. -/
theorem roundHalfEven_spec (hden : 0 < den) (num : Nat) :
    (roundHalfEven num den : ℚ) ≤ num / den + 1 / 2 ∧
      (num / den : ℚ) ≤ roundHalfEven num den + 1 / 2 := by
  -- the comparison is made in natural numbers, as in the definition
  have hround : 2 * (den * roundHalfEven num den) ≤ 2 * num + den ∧
      2 * num ≤ 2 * (den * roundHalfEven num den) + den := by
    have hdiv := Nat.div_add_mod num den
    have hmod := Nat.mod_lt num hden
    have hparity : num / den % 2 = 0 ∨ num / den % 2 = 1 := by omega
    unfold roundHalfEven
    dsimp only
    split
    · omega
    · split
      · rcases hparity with heven | hodd
        · rw [heven, Nat.add_zero]
          omega
        · rw [hodd, Nat.mul_succ]
          omega
      · rw [Nat.mul_succ]
        omega
  obtain ⟨hlow, hhigh⟩ := hround
  have hpos : (0 : ℚ) < den := by exact_mod_cast hden
  have hlow' : (2 : ℚ) * (den * roundHalfEven num den) ≤ 2 * num + den := by exact_mod_cast hlow
  have hhigh' : (2 : ℚ) * num ≤ 2 * (den * roundHalfEven num den) + den := by exact_mod_cast hhigh
  constructor
  · rw [div_add' _ _ _ hpos.ne', le_div_iff₀ hpos]
    linarith
  · rw [div_le_iff₀ hpos]
    linarith

/-! ### Exponents -/

theorem le_two_pow_log2 (hnum : 0 < num) :
    (2 : ℚ) ^ (Nat.log2 num : Int) ≤ num ∧ (num : ℚ) < 2 ^ (Nat.log2 num + 1 : Int) := by
  have hlow := Nat.log2_self_le hnum.ne'
  have hhigh := Nat.lt_log2_self (n := num)
  constructor
  · exact_mod_cast hlow
  · exact_mod_cast hhigh

/-- The magnitude of a quotient, up to a factor of four, by the number of bits of its parts. -/
theorem div_bounds (hnum : 0 < num) (hden : 0 < den) :
    (2 : ℚ) ^ ((Nat.log2 num : Int) - Nat.log2 den - 1) ≤ num / den ∧
      (num / den : ℚ) < 2 ^ ((Nat.log2 num : Int) - Nat.log2 den + 1) := by
  obtain ⟨hnumLow, hnumHigh⟩ := le_two_pow_log2 hnum
  obtain ⟨hdenLow, hdenHigh⟩ := le_two_pow_log2 hden
  have hpos : (0 : ℚ) < den := by exact_mod_cast hden
  constructor
  · rw [le_div_iff₀ hpos]
    calc (2 : ℚ) ^ ((Nat.log2 num : Int) - Nat.log2 den - 1) * den
        ≤ 2 ^ ((Nat.log2 num : Int) - Nat.log2 den - 1) * 2 ^ (Nat.log2 den + 1 : Int) := by gcongr
      _ = 2 ^ (Nat.log2 num : Int) := by
        rw [← zpow_add₀ two_ne_zero]
        congr 1
        omega
      _ ≤ num := hnumLow
  · rw [div_lt_iff₀ hpos]
    calc (num : ℚ) < 2 ^ (Nat.log2 num + 1 : Int) := hnumHigh
      _ = 2 ^ ((Nat.log2 num : Int) - Nat.log2 den + 1) * 2 ^ (Nat.log2 den : Int) := by
        rw [← zpow_add₀ two_ne_zero]
        congr 1
        omega
      _ ≤ 2 ^ ((Nat.log2 num : Int) - Nat.log2 den + 1) * den := by gcongr

/-- Comparing the parts of a shifted quotient compares the quotient. -/
theorem shiftQuotient_lt_iff (num : Nat) (hden : 0 < den) (e : Int) :
    (shiftQuotient num den (-e)).1 < (shiftQuotient num den (-e)).2 * Nat.pow 2 52 ↔
      (num / den : ℚ) < 2 ^ (e + 52) := by
  have hsnd : (0 : ℚ) < (shiftQuotient num den (-e)).2 := by
    exact_mod_cast shiftQuotient_snd_pos hden num (-e)
  have htwo : (0 : ℚ) < 2 ^ e := by positivity
  rw [mul_comm, ← Nat.cast_lt (α := ℚ), Nat.cast_mul, ← div_lt_iff₀ hsnd, shiftQuotient_eq,
    zpow_neg, mul_inv_lt_iff₀ htwo, mul_comm, zpow_add₀ two_ne_zero]
  norm_num

/-- Without a least exponent, the significand of a quotient would have 53 bits. -/
theorem exists_exponentOf (hnum : 0 < num) (hden : 0 < den) :
    ∃ e, exponentOf num den = max e leastExponent ∧
      (num / den : ℚ) < 2 ^ (e + 53) ∧ 2 ^ (e + 52) ≤ (num / den : ℚ) := by
  obtain ⟨hlow, hhigh⟩ := div_bounds hnum hden
  have hcompare := shiftQuotient_lt_iff num hden
    ((Nat.log2 num : Int) - (Nat.log2 den : Int) - 52)
  rw [exponentOf]
  dsimp only
  generalize (Nat.log2 num : Int) - (Nat.log2 den : Int) = d at hlow hhigh hcompare ⊢
  -- the guess is at most one too great
  by_cases hless : (num / den : ℚ) < 2 ^ (d - 52 + 52)
  · rw [if_pos (hcompare.mpr hless)]
    refine ⟨d - 52 - 1, rfl, ?_, ?_⟩
    · rwa [show d - 52 - 1 + 53 = d - 52 + 52 by ring]
    · rwa [show d - 52 - 1 + 52 = d - 1 by ring]
  · rw [if_neg (mt hcompare.mp hless)]
    refine ⟨d - 52, rfl, ?_, not_lt.mp hless⟩
    rwa [show d - 52 + 53 = d + 1 by ring]

/-- At the exponent of a quotient its significand has at most 53 bits. It has no fewer, unless the
exponent is the least one. -/
theorem exponentOf_spec (hnum : 0 < num) (hden : 0 < den) :
    (num / den : ℚ) < 2 ^ (exponentOf num den + 53) ∧
      (exponentOf num den = leastExponent ∨ 2 ^ (exponentOf num den + 52) ≤ (num / den : ℚ)) := by
  obtain ⟨e, he, hhigh, hlow⟩ := exists_exponentOf hnum hden
  rw [he]
  constructor
  · calc (num / den : ℚ) < 2 ^ (e + 53) := hhigh
      _ ≤ 2 ^ (max e leastExponent + 53) := by
        gcongr
        · norm_num
        · exact le_max_left _ _
  · rcases le_total e leastExponent with hle | hle
    · exact Or.inl (max_eq_right hle)
    · rw [max_eq_left hle]
      exact Or.inr hlow

/-! ### The nearest value -/

/-- The value with a rounded significand; a carry moves the exponent. -/
def carried? (negative : Bool) (r : Nat) (e : Int) : Option Binary64 :=
  if r = Nat.pow 2 53 then
    if e + 1 ≤ greatestExponent then some ⟨negative, Nat.pow 2 52, e + 1⟩ else none
  else if e ≤ greatestExponent then some ⟨negative, r, e⟩ else none

theorem nearestQuotient?_eq_carried? (negative : Bool) (hnum : num ≠ 0) (den : Nat) :
    nearestQuotient? negative num den =
      carried? negative (roundHalfEven (shiftQuotient num den (-exponentOf num den)).1
        (shiftQuotient num den (-exponentOf num den)).2) (exponentOf num den) := by
  rw [nearestQuotient?, if_neg hnum]
  generalize exponentOf num den = e
  dsimp -iota only
  obtain ⟨n, d⟩ := shiftQuotient num den (-e)
  unfold carried?
  -- the powers are never to be evaluated
  generalize Nat.pow 2 53 = carry
  generalize Nat.pow 2 52 = half
  dsimp only
  by_cases hcarry : roundHalfEven n d = carry
  · rw [if_pos hcarry, if_pos hcarry]
  · rw [if_neg hcarry, if_neg hcarry]

/-- The quotient is rounded at its exponent, by half of a unit at most. -/
theorem nearestQuotient?_spec (negative : Bool) (hnum : 0 < num) (hden : 0 < den) :
    ∃ r : Nat, nearestQuotient? negative num den = carried? negative r (exponentOf num den) ∧
      r ≤ 2 ^ 53 ∧
      (r * 2 ^ exponentOf num den : ℚ) ≤ num / den + 2 ^ exponentOf num den / 2 ∧
      (num / den : ℚ) ≤ r * 2 ^ exponentOf num den + 2 ^ exponentOf num den / 2 := by
  refine ⟨_, nearestQuotient?_eq_carried? negative hnum.ne' den, ?_⟩
  have hsnd := shiftQuotient_snd_pos hden num (-exponentOf num den)
  obtain ⟨hlow, hhigh⟩ :=
    roundHalfEven_spec hsnd (shiftQuotient num den (-exponentOf num den)).1
  rw [shiftQuotient_eq, zpow_neg] at hlow hhigh
  obtain ⟨hlt, -⟩ := exponentOf_spec hnum hden
  rw [zpow_add₀ two_ne_zero] at hlt
  -- all that counts from here on are the bounds on the significand
  generalize roundHalfEven _ _ = r at hlow hhigh ⊢
  generalize exponentOf num den = e at hlow hhigh hlt ⊢
  have htwo : (0 : ℚ) < 2 ^ e := by positivity
  have hquotient : (num / den : ℚ) * (2 ^ e)⁻¹ * 2 ^ e = num / den :=
    inv_mul_cancel_right₀ htwo.ne' _
  refine ⟨?_, ?_, ?_⟩
  · have hless : (num / den : ℚ) * (2 ^ e)⁻¹ < 2 ^ 53 := by
      rw [mul_inv_lt_iff₀ htwo, mul_comm]
      exact_mod_cast hlt
    have hr : (r : ℚ) < 2 ^ 53 + 1 := by linarith
    exact Nat.lt_succ_iff.mp (by exact_mod_cast hr)
  · calc (r * 2 ^ e : ℚ) ≤ (num / den * (2 ^ e)⁻¹ + 1 / 2) * 2 ^ e := by gcongr
      _ = num / den + 2 ^ e / 2 := by rw [add_mul, hquotient]; ring
  · calc (num / den : ℚ) = num / den * (2 ^ e)⁻¹ * 2 ^ e := hquotient.symm
      _ ≤ (r + 1 / 2) * 2 ^ e := by gcongr
      _ = r * 2 ^ e + 2 ^ e / 2 := by ring

/-- A carry does not change the magnitude. -/
theorem carried?_eq_some {r : Nat} {e : Int} (h : carried? negative r e = some x)
    (hr : r ≤ 2 ^ 53) : x.IsFinite ∧ x.magnitude = r * 2 ^ e := by
  unfold carried? at h
  split at h
  · next hcarry =>
    split at h
    · next hle =>
      cases h
      refine ⟨⟨show Nat.pow 2 52 < 2 ^ 53 by decide, hle⟩, ?_⟩
      rw [magnitude, hcarry, zpow_add_one₀ two_ne_zero]
      norm_num
      ring
    · cases h
  · next hcarry =>
    split at h
    · next hle =>
      cases h
      exact ⟨⟨lt_of_le_of_ne hr hcarry, hle⟩, rfl⟩
    · cases h

theorem exists_carried? (negative : Bool) {r : Nat} {e : Int}
    (h : e < greatestExponent ∨ (e = greatestExponent ∧ r < 2 ^ 53)) :
    ∃ x, carried? negative r e = some x := by
  unfold carried?
  rcases h with h | ⟨rfl, hr⟩
  · rw [if_pos (by omega : e + 1 ≤ greatestExponent), if_pos (le_of_lt h)]
    split <;> exact ⟨_, rfl⟩
  · rw [if_neg (show r ≠ Nat.pow 2 53 from hr.ne), if_pos le_rfl]
    exact ⟨_, rfl⟩

/-- A quotient below the limit has a nearest value. -/
theorem exists_nearestQuotient? (negative : Bool) (hden : 0 < den)
    (h : (num / den : ℚ) < limit) : ∃ x, nearestQuotient? negative num den = some x := by
  rcases Nat.eq_zero_or_pos num with rfl | hnum
  · exact ⟨zero negative, rfl⟩
  obtain ⟨r, hr, -, hhigh, -⟩ := nearestQuotient?_spec negative hnum hden
  obtain ⟨-, hleast | hlow⟩ := exponentOf_spec hnum hden
  · rw [hr, hleast]
    exact exists_carried? negative (Or.inl (by decide))
  · rw [hr]
    generalize exponentOf num den = e at hhigh hlow ⊢
    apply exists_carried?
    -- the quotient would have too many digits at a greater exponent
    have hle : e ≤ greatestExponent := by
      have hpower : (2 : ℚ) ^ (e + 52) < 2 ^ (1024 : Int) := by
        calc (2 : ℚ) ^ (e + 52) ≤ num / den := hlow
          _ < limit := h
          _ < 2 ^ (1024 : Int) := by norm_num [limit]
      have hlt := (zpow_lt_zpow_iff_right₀ one_lt_two).mp hpower
      rw [greatestExponent]
      omega
    rcases lt_or_eq_of_le hle with hlt | heq
    · exact Or.inl hlt
    · refine Or.inr ⟨heq, ?_⟩
      -- and below the limit there is no carry at the greatest one
      rw [heq, greatestExponent] at hhigh
      have hless : (r : ℚ) * 2 ^ (971 : Int) < 2 ^ 53 * 2 ^ (971 : Int) := by
        calc (r : ℚ) * 2 ^ (971 : Int) ≤ num / den + 2 ^ (971 : Int) / 2 := hhigh
          _ < limit + 2 ^ (971 : Int) / 2 := by gcongr
          _ = 2 ^ 53 * 2 ^ (971 : Int) := limit_add
      have hr53 : (r : ℚ) < 2 ^ 53 := lt_of_mul_lt_mul_right hless (by positivity)
      exact_mod_cast hr53

theorem isFinite_zero (negative : Bool) : (zero negative).IsFinite :=
  ⟨show 0 < 2 ^ 53 by decide, show leastExponent ≤ greatestExponent by decide⟩

theorem isFinite_of_nearestQuotient? (hden : 0 < den)
    (h : nearestQuotient? negative num den = some x) : x.IsFinite := by
  rcases Nat.eq_zero_or_pos num with rfl | hnum
  · cases h
    exact isFinite_zero negative
  · obtain ⟨r, hr, hle, -⟩ := nearestQuotient?_spec negative hnum hden
    rw [hr] at h
    exact (carried?_eq_some h hle).1

/-- The unit at the exponent of a quotient is small beside the quotient, or beside one. -/
theorem two_pow_exponentOf_le (hnum : 0 < num) (hden : 0 < den) :
    (2 : ℚ) ^ exponentOf num den ≤ max (num / den : ℚ) 1 / 2 ^ 52 := by
  rw [le_div_iff₀ (by positivity)]
  obtain ⟨-, hleast | hlow⟩ := exponentOf_spec hnum hden
  · rw [hleast, leastExponent, ← zpow_natCast (2 : ℚ) 52, ← zpow_add₀ two_ne_zero]
    exact le_max_of_le_right (zpow_le_one_of_nonpos₀ one_le_two (by norm_num))
  · rw [zpow_add₀ two_ne_zero] at hlow
    exact le_max_of_le_left (by exact_mod_cast hlow)

/-- The nearest value is near the quotient. -/
theorem magnitude_of_nearestQuotient? (hden : 0 < den)
    (h : nearestQuotient? negative num den = some x) :
    x.magnitude ≤ num / den + max (num / den : ℚ) 1 / 2 ^ 53 ∧
      (num / den : ℚ) ≤ x.magnitude + max (num / den : ℚ) 1 / 2 ^ 53 := by
  rcases Nat.eq_zero_or_pos num with rfl | hnum
  · cases h
    norm_num [magnitude, zero]
  · obtain ⟨r, hr, hle, hhigh, hlow⟩ := nearestQuotient?_spec negative hnum hden
    -- the error is half of a unit, and a unit is small compared with the quotient
    have hunit := two_pow_exponentOf_le hnum hden
    have hhalf : (2 : ℚ) ^ exponentOf num den / 2 ≤ max (num / den : ℚ) 1 / 2 ^ 53 := by
      linarith
    rw [hr] at h
    rw [(carried?_eq_some h hle).2]
    exact ⟨hhigh.trans (by gcongr), hlow.trans (by gcongr)⟩

/-! ### Products and quotients -/

theorem nearest?_eq (negative : Bool) (num den : Nat) (shift : Int) :
    nearest? negative num den shift = nearestQuotient? negative
      (shiftQuotient num den shift).1 (shiftQuotient num den shift).2 := rfl

theorem product_eq (x y : Binary64) :
    ((x.significand * y.significand : Nat) / (1 : Nat) : ℚ) * 2 ^ (x.exponent + y.exponent)
      = x.magnitude * y.magnitude := by
  rw [zpow_add₀ two_ne_zero, magnitude, magnitude]
  push_cast
  ring

theorem quotient_eq (x y : Binary64) :
    (x.significand / y.significand : ℚ) * 2 ^ (x.exponent - y.exponent)
      = x.magnitude / y.magnitude := by
  rw [zpow_sub₀ two_ne_zero, magnitude, magnitude, div_mul_div_comm]

/-- The product of two values has a nearest value if it is below the limit. -/
theorem exists_mul? (h : x.magnitude * y.magnitude < limit) : ∃ z, x.mul? y = some z := by
  rw [mul?, nearest?_eq]
  apply exists_nearestQuotient? _ (shiftQuotient_snd_pos one_pos _ _)
  rwa [shiftQuotient_eq, product_eq]

theorem isFinite_of_mul? {z : Binary64} (h : x.mul? y = some z) : z.IsFinite := by
  rw [mul?, nearest?_eq] at h
  exact isFinite_of_nearestQuotient? (shiftQuotient_snd_pos one_pos _ _) h

theorem significand_pos_iff : 0 < x.significand ↔ 0 < x.magnitude := by
  have htwo : (0 : ℚ) < 2 ^ x.exponent := by positivity
  rw [magnitude, mul_pos_iff_of_pos_right htwo, Nat.cast_pos]

/-- So has a quotient. -/
theorem exists_div? (hy : 0 < y.magnitude) (h : x.magnitude / y.magnitude < limit) :
    ∃ z, x.div? y = some z := by
  rw [div?, nearest?_eq]
  apply exists_nearestQuotient? _ (shiftQuotient_snd_pos (significand_pos_iff.mpr hy) _ _)
  rwa [shiftQuotient_eq, quotient_eq]

theorem isFinite_of_div? {z : Binary64} (hy : 0 < y.magnitude) (h : x.div? y = some z) :
    z.IsFinite := by
  rw [div?, nearest?_eq] at h
  exact isFinite_of_nearestQuotient?
    (shiftQuotient_snd_pos (significand_pos_iff.mpr hy) _ _) h

theorem magnitude_of_div? {z : Binary64} (hy : 0 < y.magnitude) (h : x.div? y = some z) :
    z.magnitude ≤ x.magnitude / y.magnitude + max (x.magnitude / y.magnitude) 1 / 2 ^ 53 := by
  rw [div?, nearest?_eq] at h
  have hnear := (magnitude_of_nearestQuotient?
    (shiftQuotient_snd_pos (significand_pos_iff.mpr hy) _ _) h).1
  rwa [shiftQuotient_eq, quotient_eq] at hnear

/-! ### Natural numbers -/

theorem exists_ofNat? (negative : Bool) {n : Nat} (h : (n : ℚ) < limit) :
    ∃ x, ofNat? negative n = some x :=
  exists_nearestQuotient? negative one_pos (by rwa [Nat.cast_one, div_one])

theorem isFinite_of_ofNat? {n : Nat} (h : ofNat? negative n = some x) : x.IsFinite :=
  isFinite_of_nearestQuotient? one_pos h

/-- The nearest value differs from a positive number by one part in `2 ^ 53` at most. -/
theorem magnitude_of_ofNat? {n : Nat} (hn : 1 ≤ n) (h : ofNat? negative n = some x) :
    x.magnitude ≤ n * (1 + 1 / 2 ^ 53) ∧ n * (1 - 1 / 2 ^ 53) ≤ x.magnitude := by
  have hone : (1 : ℚ) ≤ n := by exact_mod_cast hn
  obtain ⟨hhigh, hlow⟩ := magnitude_of_nearestQuotient? one_pos h
  rw [Nat.cast_one, div_one, max_eq_left hone] at hhigh hlow
  constructor <;> linarith

end Targeting.Binary64
