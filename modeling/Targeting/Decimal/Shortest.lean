import Targeting.Decimal.Binary64

/-!
# The shortest decimal number that reads back

A finite value is written with the fewest decimal digits that still read back as that value:
the decimal must lie in the interval of reals that round to it (ends included exactly when the
significand is even), and of several decimals of that length the nearest is taken. When two are
equally near, a `TieRule` decides.

## Main definitions

* `Decimal` — a natural number of digits times a power of ten
* `Binary64.shortest` — the shortest decimal of a finite nonzero value
-/

namespace Targeting

/-- The decimal number `digits · 10 ^ scale`. -/
structure Decimal where
  digits : Nat
  scale : Int
  deriving DecidableEq

/-- Which of two equally near decimals is written. -/
inductive TieRule where
  | toEven
  | up
  deriving DecidableEq

namespace Decimal

/-- Moves trailing zeros of the digits into the scale; `fuel` bounds their number. -/
def dropZeros : Nat → Decimal → Decimal
  | 0, d => d
  | fuel + 1, d =>
    if d.digits ≠ 0 ∧ d.digits % 10 = 0 then dropZeros fuel ⟨d.digits / 10, d.scale + 1⟩ else d

/-- The same number without trailing zeros among its digits. -/
def canonical (d : Decimal) : Decimal := d.dropZeros (Nat.log2 d.digits + 1)

/-- The digits as characters, most significant first. -/
def digitChars (d : Decimal) : List Char := Nat.toDigits 10 d.digits

/-- The power of ten of the most significant digit. -/
def leadingPower (d : Decimal) : Int := d.scale + d.digitChars.length - 1

end Decimal

namespace Binary64

/-- The reals that round to a value, on the grid of quarters of its last place: the lower end,
the value and the upper end are `low`, `mid` and `high` times `2 ^ power`. Below a power of two
the neighbouring value is half as far away. -/
structure Interval where
  low : Nat
  mid : Nat
  high : Nat
  power : Int
  closed : Bool

/-- The interval of reals that round to a value. -/
def interval (x : Binary64) : Interval where
  low := if x.significand = Nat.pow 2 52 ∧ x.exponent > leastExponent
    then 4 * x.significand - 1 else 4 * x.significand - 2
  mid := 4 * x.significand
  high := 4 * x.significand + 2
  power := x.exponent - 2
  closed := x.significand % 2 == 0

/-- The greatest `k` with `10 ^ k ≤ num / den`, for a positive quotient. -/
def decimalPower (num den : Nat) : Int :=
  let guess : Int := ((Nat.toDigits 10 num).length : Int) - (Nat.toDigits 10 den).length
  if den * Nat.pow 10 guess.toNat ≤ num * Nat.pow 10 (-guess).toNat then guess else guess - 1

/-- The grid point nearest to the value among those that read back, on the decimal grid of
steps `10 ^ scale`. -/
def onGrid? (tie : TieRule) (i : Interval) (scale : Int) : Option Nat :=
  let unit := Nat.pow 2 i.power.toNat * Nat.pow 10 (-scale).toNat
  let step := Nat.pow 10 scale.toNat * Nat.pow 2 (-i.power).toNat
  let below := i.mid * unit / step
  let above := below + 1
  let inside (point : Nat) : Bool :=
    if i.closed then i.low * unit ≤ point * step && point * step ≤ i.high * unit
    else i.low * unit < point * step && point * step < i.high * unit
  let gapBelow := i.mid * unit - below * step
  let gapAbove := above * step - i.mid * unit
  match inside below, inside above with
  | true, true =>
    if gapBelow < gapAbove then some below
    else if gapAbove < gapBelow then some above
    else match tie with
      | .toEven => some (below + below % 2)
      | .up => some above
  | true, false => some below
  | false, true => some above
  | false, false => none

/-- Tries grids from coarse to fine; `fuel` is the number of grids left. -/
def shortestFrom (tie : TieRule) (i : Interval) : Nat → Int → Decimal
  | 0, scale => ⟨i.mid, scale⟩
  | fuel + 1, scale =>
    match onGrid? tie i scale with
    | some digits => Decimal.canonical ⟨digits, scale⟩
    | none => shortestFrom tie i fuel (scale - 1)

/-- The shortest decimal that reads back as the magnitude of a nonzero value. Seventeen digits
are always enough. -/
def shortest (tie : TieRule) (x : Binary64) : Decimal :=
  let (num, den) := shiftQuotient x.significand 1 x.exponent
  shortestFrom tie x.interval 18 (decimalPower num den)

end Binary64

end Targeting
