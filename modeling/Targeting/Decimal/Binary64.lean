/-!
# Binary floating-point numbers

A number that is not an integer is held in the format with a 53-bit significand and an
11-bit exponent. Values are exact (a sign, a natural significand and a power of two), and
every operation rounds an exact quotient once, to the nearest value and on a tie to the even
significand. Nothing here depends on hardware arithmetic.

## Main definitions

* `Binary64` — a finite value `± significand · 2 ^ exponent`
* `Binary64.nearest?` — the value nearest to a quotient times a power of two
* `Binary64.mul?`, `Binary64.div?` — one rounded product or quotient
* `Binary64.ofDecimal?` — the value nearest to a decimal number
-/

namespace Targeting

/-- A finite value `± significand · 2 ^ exponent`. Values made by this module have either
`2 ^ 52 ≤ significand < 2 ^ 53`, or `significand < 2 ^ 52` and the least exponent `-1074`. -/
structure Binary64 where
  negative : Bool
  significand : Nat
  exponent : Int
  deriving DecidableEq

namespace Binary64

/-- The least exponent, that of zero and of the subnormal values. -/
def leastExponent : Int := -1074

/-- The greatest exponent of a finite value. -/
def greatestExponent : Int := 971

/-- The two zeros. -/
def zero (negative : Bool) : Binary64 := ⟨negative, 0, leastExponent⟩

/-- A value is zero when its significand is. -/
def isZero (x : Binary64) : Bool := x.significand == 0

/-- The same magnitude with the given sign. -/
def withSign (x : Binary64) (negative : Bool) : Binary64 := { x with negative }

/-- The quotient `num / den · 2 ^ shift` as a quotient of natural numbers. -/
def shiftQuotient (num den : Nat) (shift : Int) : Nat × Nat :=
  (num * Nat.pow 2 shift.toNat, den * Nat.pow 2 (-shift).toNat)

/-- The natural number nearest to `num / den`; a tie goes to the even one. -/
def roundHalfEven (num den : Nat) : Nat :=
  let whole := num / den
  let doubled := 2 * (num % den)
  if doubled < den then whole
  else if doubled = den then whole + whole % 2
  else whole + 1

/-- The exponent at which a positive quotient has a 53-bit significand, or the least exponent
when that is greater. -/
def exponentOf (num den : Nat) : Int :=
  let guess : Int := (Nat.log2 num : Int) - (Nat.log2 den : Int) - 52
  let (n, d) := shiftQuotient num den (-guess)
  max (if n < d * Nat.pow 2 52 then guess - 1 else guess) leastExponent

/-- The value nearest to `num / den`, and `none` where that is beyond every finite value. -/
def nearestQuotient? (negative : Bool) (num den : Nat) : Option Binary64 :=
  if num = 0 then some (zero negative)
  else
    let exponent := exponentOf num den
    let (n, d) := shiftQuotient num den (-exponent)
    let rounded := roundHalfEven n d
    let (significand, exponent) :=
      if rounded = Nat.pow 2 53 then (Nat.pow 2 52, exponent + 1) else (rounded, exponent)
    if exponent ≤ greatestExponent then some ⟨negative, significand, exponent⟩ else none

/-- The value nearest to `num / den · 2 ^ shift`. -/
def nearest? (negative : Bool) (num den : Nat) (shift : Int) : Option Binary64 :=
  let (n, d) := shiftQuotient num den shift
  nearestQuotient? negative n d

/-- The value nearest to a natural number. -/
def ofNat? (negative : Bool) (n : Nat) : Option Binary64 :=
  nearestQuotient? negative n 1

/-- The rounded product of two magnitudes, with the sign of the first. -/
def mul? (x y : Binary64) : Option Binary64 :=
  nearest? x.negative (x.significand * y.significand) 1 (x.exponent + y.exponent)

/-- The rounded quotient of two magnitudes, with the sign of the first. -/
def div? (x y : Binary64) : Option Binary64 :=
  nearest? x.negative x.significand y.significand (x.exponent - y.exponent)

/-- The value nearest to `digits · 10 ^ scale`. A scale far beyond the range of the format
is decided without computing the power. -/
def ofDecimal? (negative : Bool) (digits : Nat) (scale : Int) : Option Binary64 :=
  let places : Int := (Nat.log2 digits : Int) / 3 + 1
  if digits = 0 then some (zero negative)
  else if scale > 400 then none
  else if scale + places < -400 then some (zero negative)
  else nearestQuotient? negative (digits * Nat.pow 10 scale.toNat)
    (Nat.pow 10 (-scale).toNat)

/-- The natural number nearest to the magnitude; a tie goes to the greater one. -/
def roundHalfUp (x : Binary64) : Nat :=
  let (n, d) := shiftQuotient x.significand 1 x.exponent
  (2 * n + d) / (2 * d)

end Binary64

end Targeting
