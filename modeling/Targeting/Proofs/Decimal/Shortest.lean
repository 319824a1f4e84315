import Mathlib.Data.Nat.Digits.Defs
import Targeting.Decimal.Shortest
import Targeting.Proofs.Decimal.Nearest

/-!
# The size of the shortest decimal

The shortest decimal of a value lies in the interval of reals that round to this value, so it is not
beyond the upper end of the interval. A decimal that is given when no grid has a point there is small.

## Main definitions

* `Decimal.value` — a decimal as a rational number
* `Binary64.Interval.Contains` — a decimal lies in an interval

## Main results

* `Binary64.shortestFrom_cases` — the shortest decimal is in the interval, or no grid has a point there
* `Binary64.shortest_spec` — it is positive, and not beyond the interval unless it is small
-/

namespace Targeting

/-- A decimal as a rational number. -/
def Decimal.value (d : Decimal) : ℚ := d.digits * 10 ^ d.scale

theorem Decimal.dropZeros_spec (fuel : Nat) (d : Decimal) :
    (d.dropZeros fuel).value = d.value ∧ (0 < d.digits → 0 < (d.dropZeros fuel).digits) := by
  induction fuel generalizing d with
  | zero => exact ⟨rfl, id⟩
  | succ fuel ih =>
    rw [dropZeros]
    split
    · next h =>
      obtain ⟨hpos, hzero⟩ := h
      obtain ⟨hvalue, hdigits⟩ := ih ⟨d.digits / 10, d.scale + 1⟩
      refine ⟨?_, fun _ => hdigits (by dsimp only; omega)⟩
      -- the last digit is zero, so nothing is lost
      have hten : d.digits = d.digits / 10 * 10 := by omega
      rw [hvalue, value, value, zpow_add_one₀ (by norm_num)]
      dsimp only
      nth_rewrite 2 [hten]
      push_cast
      ring
    · exact ⟨rfl, id⟩

namespace Binary64

variable {tie : TieRule} {i : Interval} {scale : Int} {x : Binary64}

/-- A grid point is inside the interval. -/
def Interval.Contains (i : Interval) (point : Nat) (scale : Int) : Prop :=
  i.low * 2 ^ i.power ≤ (point * 10 ^ scale : ℚ) ∧ (point * 10 ^ scale : ℚ) ≤ i.high * 2 ^ i.power

/-- The comparisons that are made on the grid. -/
theorem Interval.contains_of_le {point : Nat}
    (hlow : i.low * (Nat.pow 2 i.power.toNat * Nat.pow 10 (-scale).toNat)
      ≤ point * (Nat.pow 10 scale.toNat * Nat.pow 2 (-i.power).toNat))
    (hhigh : point * (Nat.pow 10 scale.toNat * Nat.pow 2 (-i.power).toNat)
      ≤ i.high * (Nat.pow 2 i.power.toNat * Nat.pow 10 (-scale).toNat)) :
    i.Contains point scale := by
  have hpower : ∀ (b : ℕ) (e : Int), 0 < b → (b : ℚ) ^ e = b ^ e.toNat / b ^ (-e).toNat := by
    intro b e hb
    have hb' : (b : ℚ) ≠ 0 := by exact_mod_cast hb.ne'
    obtain ⟨k, rfl | rfl⟩ := Int.eq_nat_or_neg e <;> simp
  have htwo := hpower 2 i.power (by decide)
  have hten := hpower 10 scale (by decide)
  rw [Nat.cast_ofNat] at htwo hten
  have hlow' : (i.low : ℚ) * (2 ^ i.power.toNat * 10 ^ (-scale).toNat)
      ≤ point * (10 ^ scale.toNat * 2 ^ (-i.power).toNat) := by exact_mod_cast hlow
  have hhigh' : (point : ℚ) * (10 ^ scale.toNat * 2 ^ (-i.power).toNat)
      ≤ i.high * (2 ^ i.power.toNat * 10 ^ (-scale).toNat) := by exact_mod_cast hhigh
  rw [Contains, htwo, hten]
  constructor
  · rw [mul_div_assoc', mul_div_assoc', div_le_div_iff₀ (by positivity) (by positivity)]
    linarith
  · rw [mul_div_assoc', mul_div_assoc', div_le_div_iff₀ (by positivity) (by positivity)]
    linarith

theorem contains_of_onGrid? {point : Nat} (h : onGrid? tie i scale = some point) :
    i.Contains point scale := by
  unfold onGrid? at h
  -- whether the ends belong to the interval or not, a point inside is not beyond them
  have hinside : ∀ point, (if i.closed then
        decide (i.low * (Nat.pow 2 i.power.toNat * Nat.pow 10 (-scale).toNat)
          ≤ point * (Nat.pow 10 scale.toNat * Nat.pow 2 (-i.power).toNat)) &&
        decide (point * (Nat.pow 10 scale.toNat * Nat.pow 2 (-i.power).toNat)
          ≤ i.high * (Nat.pow 2 i.power.toNat * Nat.pow 10 (-scale).toNat))
      else
        decide (i.low * (Nat.pow 2 i.power.toNat * Nat.pow 10 (-scale).toNat)
          < point * (Nat.pow 10 scale.toNat * Nat.pow 2 (-i.power).toNat)) &&
        decide (point * (Nat.pow 10 scale.toNat * Nat.pow 2 (-i.power).toNat)
          < i.high * (Nat.pow 2 i.power.toNat * Nat.pow 10 (-scale).toNat))) = true →
      i.Contains point scale := by
    intro point hpoint
    split at hpoint
    · obtain ⟨hlow, hhigh⟩ := Bool.and_eq_true_iff.mp hpoint
      exact Interval.contains_of_le (of_decide_eq_true hlow) (of_decide_eq_true hhigh)
    · obtain ⟨hlow, hhigh⟩ := Bool.and_eq_true_iff.mp hpoint
      exact Interval.contains_of_le (le_of_lt (of_decide_eq_true hlow))
        (le_of_lt (of_decide_eq_true hhigh))
  dsimp only at h
  split at h
  · next hbelow habove =>
    split at h
    · cases h
      exact hinside _ hbelow
    · split at h
      · cases h
        exact hinside _ habove
      · split at h
        · cases h
          -- of two points side by side the even one is taken
          rcases Nat.mod_two_eq_zero_or_one (i.mid * (Nat.pow 2 i.power.toNat *
            Nat.pow 10 (-scale).toNat) / (Nat.pow 10 scale.toNat * Nat.pow 2 (-i.power).toNat))
            with heven | hodd
          · rw [heven]
            exact hinside _ hbelow
          · rw [hodd]
            exact hinside _ habove
        · cases h
          exact hinside _ habove
  · next hbelow _ =>
    cases h
    exact hinside _ hbelow
  · next _ habove =>
    cases h
    exact hinside _ habove
  · cases h

theorem Interval.Contains.pos {point : Nat} (h : i.Contains point scale) (hlow : 0 < i.low) :
    0 < point := by
  have hpositive : (0 : ℚ) < point * 10 ^ scale := by
    have hlow' : (0 : ℚ) < i.low := by exact_mod_cast hlow
    exact lt_of_lt_of_le (by positivity) h.1
  exact_mod_cast (mul_pos_iff_of_pos_right (by positivity)).mp hpositive

/-- A decimal comes from a point in the interval, or is the one that is given in the end. -/
theorem shortestFrom_cases (tie : TieRule) (i : Interval) (fuel : Nat) (scale : Int) :
    (∃ point s, i.Contains point s ∧
      (shortestFrom tie i fuel scale).value = (⟨point, s⟩ : Decimal).value ∧
      (0 < point → 0 < (shortestFrom tie i fuel scale).digits)) ∨
    shortestFrom tie i fuel scale = ⟨i.mid, scale - fuel⟩ := by
  induction fuel generalizing scale with
  | zero => exact Or.inr (by rw [shortestFrom, Nat.cast_zero, sub_zero])
  | succ fuel ih =>
    rw [shortestFrom]
    split
    · next digits hgrid =>
      obtain ⟨hvalue, hpos⟩ := Decimal.dropZeros_spec (Nat.log2 digits + 1) ⟨digits, scale⟩
      exact Or.inl ⟨digits, scale, contains_of_onGrid? hgrid, hvalue, hpos⟩
    · rcases ih (scale - 1) with hpoint | hlast
      · exact Or.inl hpoint
      · refine Or.inr (hlast.trans ?_)
        rw [Nat.cast_add_one]
        congr 1
        ring

theorem decimalPower_le {num den : Nat} (hnum : num < 10 ^ 309) : decimalPower num den ≤ 308 := by
  have hlength := Nat.toDigits_length 10 num 309 (by decide) hnum
  have hden : 0 < (Nat.toDigits 10 den).length := List.length_pos_iff.mpr Nat.toDigits_ne_nil
  unfold decimalPower
  dsimp only
  split <;> omega

theorem low_pos (hpos : 0 < x.significand) : 0 < x.interval.low := by
  unfold interval
  dsimp only
  split <;> omega

theorem high_eq (x : Binary64) :
    (x.interval.high * 2 ^ x.interval.power : ℚ)
      = (x.significand + 1 / 2) * 2 ^ x.exponent := by
  have hfour : (2 : ℚ) ^ (2 : Int) = 4 := by norm_num
  rw [interval, zpow_sub₀ two_ne_zero, hfour]
  push_cast
  ring

/-- The shortest decimal of a value is positive, and not beyond the interval of the value unless it is
small. -/
theorem shortest_spec (tie : TieRule) (hfinite : x.IsFinite) (hpos : 0 < x.significand) :
    0 < (x.shortest tie).digits ∧
      ((x.shortest tie).value ≤ (x.significand + 1 / 2) * 2 ^ x.exponent ∨
        (x.shortest tie).value ≤ 2 ^ 55 * 10 ^ 290) := by
  obtain ⟨hsignificand, hexponent⟩ := hfinite
  have hnum : x.significand * Nat.pow 2 x.exponent.toNat < 10 ^ 309 := by
    have hlarge : 2 ^ 53 * 2 ^ 971 < 10 ^ 309 := by decide +kernel
    have hle : Nat.pow 2 x.exponent.toNat ≤ 2 ^ 971 := by
      apply Nat.pow_le_pow_right (by decide)
      rw [greatestExponent] at hexponent
      omega
    calc x.significand * Nat.pow 2 x.exponent.toNat
        ≤ 2 ^ 53 * 2 ^ 971 := Nat.mul_le_mul hsignificand.le hle
      _ < 10 ^ 309 := hlarge
  have hpower : decimalPower (x.significand * Nat.pow 2 x.exponent.toNat)
      (1 * Nat.pow 2 (-x.exponent).toNat) ≤ 308 := decimalPower_le hnum
  rw [shortest, shiftQuotient]
  dsimp only
  rcases shortestFrom_cases tie x.interval 18
      (decimalPower (x.significand * Nat.pow 2 x.exponent.toNat)
        (1 * Nat.pow 2 (-x.exponent).toNat)) with ⟨point, s, hcontains, hvalue, hdigits⟩ | hlast
  · refine ⟨hdigits (hcontains.pos (low_pos hpos)), Or.inl ?_⟩
    rw [hvalue, ← high_eq]
    exact hcontains.2
  · rw [hlast]
    refine ⟨by dsimp only [interval]; omega, Or.inr ?_⟩
    -- no grid had a point, so the scale is the finest one that is tried
    have hmid : (x.interval.mid : ℚ) ≤ 2 ^ 55 := by
      have hmid' : x.interval.mid ≤ 2 ^ 55 := by
        dsimp only [interval]
        omega
      exact_mod_cast hmid'
    have hscale : (10 : ℚ) ^ (decimalPower (x.significand * Nat.pow 2 x.exponent.toNat)
        (1 * Nat.pow 2 (-x.exponent).toNat) - (18 : Nat)) ≤ 10 ^ (290 : Int) :=
      zpow_le_zpow_right₀ (by norm_num) (by omega)
    rw [zpow_ofNat] at hscale
    rw [Decimal.value]
    gcongr

end Binary64

end Targeting
