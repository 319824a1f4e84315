import Targeting.Json.Number
import Targeting.Proofs.Decimal.Nearest

/-!
# Reading fractions in two roundings

The significand of a fraction is rounded first, and then its product or quotient with a rounded power
of ten. If the exact number keeps some distance to the greatest finite value, this comes to a finite
value.

## Main definitions

* `Json.Number.safeLimit` — numbers up to here are read without going beyond the finite values

## Main results

* `Json.Number.exists_scale?` — numbers within the limit are read
* `Json.Number.isFinite_of_scale?` — what is read is finite
-/

namespace Targeting.Json.Number

open Binary64

variable {negative : Bool} {significand n : Nat} {exponent : Int} {x : Binary64}

/-! ### Two roundings -/

/-- Two roundings of a number up to this one do not lead beyond the finite values. -/
def safeLimit : ℚ := (2 ^ 54 - 16) * 2 ^ 970

theorem lt_limit_of_le {q : ℚ} (h : q ≤ 10 ^ 308) : q < limit := by
  have hpowers : 10 ^ 308 + 2 ^ 970 < 2 ^ 1024 := by decide +kernel
  have hpowers' : (10 : ℚ) ^ 308 + 2 ^ 970 < 2 ^ 1024 := by exact_mod_cast hpowers
  rw [limit, lt_sub_iff_add_lt]
  calc q + 2 ^ 970 ≤ 10 ^ 308 + 2 ^ 970 := by gcongr
    _ < 2 ^ 1024 := hpowers'

theorem exists_power? (hn : n ≤ 308) : ∃ y, power? n = some y ∧
    y.magnitude ≤ 10 ^ n * (1 + 1 / 2 ^ 53) ∧ 10 ^ n * (1 - 1 / 2 ^ 53) ≤ y.magnitude := by
  have hle : ((10 ^ n : Nat) : ℚ) ≤ 10 ^ 308 := by
    rw [Nat.cast_pow, Nat.cast_ofNat]
    exact pow_le_pow_right₀ (by norm_num) hn
  obtain ⟨y, hy⟩ := exists_ofNat? false (lt_limit_of_le hle)
  obtain ⟨hhigh, hlow⟩ := magnitude_of_ofNat? (Nat.one_le_pow n 10 (by decide)) hy
  rw [Nat.cast_pow, Nat.cast_ofNat] at hhigh hlow
  exact ⟨y, hy, hhigh, hlow⟩

theorem power?_pos {y : Binary64} (hn : n ≤ 308) (hy : power? n = some y) : 0 < y.magnitude := by
  obtain ⟨y', hy', -, hlow⟩ := exists_power? hn
  cases hy.symm.trans hy'
  have hten : (0 : ℚ) < 10 ^ n := by positivity
  linarith

theorem scale?_of_isZero (hx : ofNat? negative significand = some x) (hzero : x.isZero = true)
    (exponent : Int) : scale? negative significand exponent = some x := by
  rw [scale?, hx]
  exact if_pos hzero

/-- The quotient by a power of ten stays small. -/
theorem exists_div?_power? {bound : ℚ} (hn : n ≤ 308) (hx : x.magnitude ≤ bound)
    (hone : 1 ≤ bound) (hbound : bound ≤ 2 ^ 70) :
    ∃ y z, power? n = some y ∧ x.div? y = some z ∧ z.magnitude ≤ 4 * bound := by
  obtain ⟨y, hy, -, hlow⟩ := exists_power? hn
  have hten : (1 : ℚ) ≤ 10 ^ n := one_le_pow₀ (by norm_num)
  have hhalf : (1 / 2 : ℚ) ≤ y.magnitude := by
    calc (1 / 2 : ℚ) ≤ 1 * (1 - 1 / 2 ^ 53) := by norm_num
      _ ≤ 10 ^ n * (1 - 1 / 2 ^ 53) := by gcongr
      _ ≤ y.magnitude := hlow
  have hpos : 0 < y.magnitude := by linarith
  have hquotient : x.magnitude / y.magnitude ≤ 2 * bound := by
    rw [div_le_iff₀ hpos]
    nlinarith
  have hsmall : 2 * bound ≤ 10 ^ 308 := by
    calc 2 * bound ≤ 2 * 2 ^ 70 := by gcongr
      _ ≤ 10 ^ 30 := by norm_num
      _ ≤ 10 ^ 308 := pow_le_pow_right₀ (by norm_num) (by decide)
  obtain ⟨z, hz⟩ := exists_div? hpos (lt_limit_of_le (hquotient.trans hsmall))
  refine ⟨y, z, hy, hz, ?_⟩
  have hmax : max (x.magnitude / y.magnitude) 1 ≤ 2 * bound := max_le hquotient (by linarith)
  have hnear := magnitude_of_div? hpos hz
  linarith

/-- The limits differ by fifteen half units in the last place of the greatest finite value. -/
theorem exists_unit : ∃ unit : ℚ, 0 < unit ∧ limit = (2 ^ 54 - 1) * unit ∧
    safeLimit = (2 ^ 54 - 16) * unit := by
  have hall : (2 : ℚ) ^ 1024 = 2 ^ 54 * 2 ^ 970 := pow_add 2 54 970
  refine ⟨2 ^ 970, pow_pos two_pos _, ?_, rfl⟩
  rw [limit, hall]
  generalize (2 : ℚ) ^ 970 = unit
  ring

theorem safeLimit_lt : safeLimit < 10 ^ (309 : Int) := by
  obtain ⟨unit, hunit, hlimit, hsafe⟩ := exists_unit
  have hpowers : 2 ^ 1024 < 10 ^ 309 := by decide +kernel
  have hpowers' : (2 : ℚ) ^ 1024 < 10 ^ 309 := by exact_mod_cast hpowers
  rw [zpow_ofNat]
  calc safeLimit ≤ limit := by
        rw [hsafe, hlimit]
        gcongr
        norm_num
    _ ≤ 2 ^ 1024 := sub_le_self _ (by positivity)
    _ < 10 ^ 309 := hpowers'

theorem mul_lt_limit {p q a b : ℚ} (hp : p ≤ a * (1 + 1 / 2 ^ 53)) (hq : q ≤ b * (1 + 1 / 2 ^ 53))
    (hq0 : 0 ≤ q) (ha : 0 ≤ a) (h : a * b ≤ safeLimit) : p * q < limit := by
  obtain ⟨unit, hunit, hlimit, hsafe⟩ := exists_unit
  calc p * q ≤ a * (1 + 1 / 2 ^ 53) * (b * (1 + 1 / 2 ^ 53)) := by gcongr
    _ = a * b * (1 + 1 / 2 ^ 53) ^ 2 := by ring
    _ ≤ (2 ^ 54 - 16) * unit * (1 + 1 / 2 ^ 53) ^ 2 := by
      rw [hsafe] at h
      gcongr
    _ = (2 ^ 54 - 16) * (1 + 1 / 2 ^ 53) ^ 2 * unit := by ring
    _ < (2 ^ 54 - 1) * unit := by
      gcongr
      norm_num
    _ = limit := hlimit.symm

/-- A number within the limit has no greater exponent than the finite values, unless it is zero. -/
theorem exponent_le_of_le_safeLimit (hpos : 1 ≤ significand)
    (h : (significand * 10 ^ exponent : ℚ) ≤ safeLimit) : exponent ≤ 308 := by
  have hten : (10 : ℚ) ^ exponent < 10 ^ (309 : Int) := by
    have hone : (1 : ℚ) ≤ significand := by exact_mod_cast hpos
    calc (10 : ℚ) ^ exponent ≤ significand * 10 ^ exponent :=
          le_mul_of_one_le_left (by positivity) hone
      _ ≤ safeLimit := h
      _ < 10 ^ (309 : Int) := safeLimit_lt
  have hlt := (zpow_lt_zpow_iff_right₀ (by norm_num)).mp hten
  omega

/-- A number within the limit is read in two roundings. -/
theorem exists_scale? (negative : Bool) (hfits : significand ≤ greatest)
    (h : (significand * 10 ^ exponent : ℚ) ≤ safeLimit) :
    ∃ x, scale? negative significand exponent = some x := by
  have hsmall : (significand : ℚ) ≤ 2 ^ 64 := by
    have hfits' : significand ≤ 2 ^ 64 := hfits.trans (by decide)
    exact_mod_cast hfits'
  have hlarge : (2 ^ 64 : ℚ) ≤ 10 ^ 308 := by
    calc (2 ^ 64 : ℚ) ≤ 10 ^ 20 := by norm_num
      _ ≤ 10 ^ 308 := pow_le_pow_right₀ (by norm_num) (by decide)
  obtain ⟨x, hx⟩ := exists_ofNat? negative (lt_limit_of_le (hsmall.trans hlarge))
  cases hzero : x.isZero with
  | true => exact ⟨x, scale?_of_isZero hx hzero exponent⟩
  | false =>
    have hone : 1 ≤ significand := by
      rw [Nat.one_le_iff_ne_zero]
      rintro rfl
      cases hx
      cases hzero
    obtain ⟨hhigh, -⟩ := magnitude_of_ofNat? hone hx
    have hle := exponent_le_of_le_safeLimit hone h
    have hbound : x.magnitude ≤ 2 ^ 65 := by
      calc x.magnitude ≤ significand * (1 + 1 / 2 ^ 53) := hhigh
        _ ≤ 2 ^ 64 * 2 := by
          gcongr
          norm_num
        _ = 2 ^ 65 := by norm_num
    rw [scale?, hx, Option.bind_eq_bind, Option.bind_some, hzero, if_neg Bool.false_ne_true,
      if_neg (not_lt.mpr hle)]
    split
    · next hnonneg =>
      -- a product of two rounded factors, which the limit leaves room for
      obtain ⟨y, hy, hyhigh, -⟩ := exists_power? (n := exponent.toNat) (by omega)
      rw [hy]
      have hpower : (10 : ℚ) ^ exponent.toNat = 10 ^ exponent := by
        rw [← zpow_natCast, Int.toNat_of_nonneg hnonneg]
      refine exists_mul? (mul_lt_limit hhigh hyhigh y.magnitude_nonneg (Nat.cast_nonneg _) ?_)
      rwa [hpower]
    · split
      · obtain ⟨y, z, hy, hz, -⟩ := exists_div?_power? (n := (-exponent).toNat) (by omega) hbound
          (by norm_num) (by norm_num)
        rw [hy]
        exact ⟨z, hz⟩
      · split
        · obtain ⟨y, z, hy, hz, hsmaller⟩ := exists_div?_power? (n := 308) le_rfl hbound
            (by norm_num) (by norm_num)
          -- a second division is for what the first power of ten leaves of the exponent
          obtain ⟨y', z', hy', hz', -⟩ := exists_div?_power? (n := (-exponent - 308).toNat)
            (by omega) hsmaller (by norm_num) (by norm_num)
          rw [hy, Option.bind_some, hz, Option.bind_some, hy']
          exact ⟨z', hz'⟩
        · exact ⟨_, rfl⟩

/-- Whatever is read is finite. -/
theorem isFinite_of_scale? (h : scale? negative significand exponent = some x) : x.IsFinite := by
  obtain ⟨y, hy, h⟩ := Option.bind_eq_some_iff.mp h
  have hdiv : ∀ {n : Nat} {u w : Binary64}, n ≤ 308 →
      ((power? n).bind fun p => u.div? p) = some w → w.IsFinite := by
    intro n u w hn hw
    obtain ⟨p, hp, hw⟩ := Option.bind_eq_some_iff.mp hw
    exact isFinite_of_div? (power?_pos hn hp) hw
  split at h
  · cases h
    exact isFinite_of_ofNat? hy
  · split at h
    · cases h
    · split at h
      · obtain ⟨p, -, hp⟩ := Option.bind_eq_some_iff.mp h
        exact isFinite_of_mul? hp
      · split at h
        · exact hdiv (by omega) h
        · split at h
          · obtain ⟨p, -, hp⟩ := Option.bind_eq_some_iff.mp h
            obtain ⟨z, -, hz⟩ := Option.bind_eq_some_iff.mp hp
            exact hdiv (by omega) hz
          · cases h
            exact isFinite_zero _

end Targeting.Json.Number
