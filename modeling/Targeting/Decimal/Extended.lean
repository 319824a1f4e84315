import Targeting.Decimal.Layout

/-!
# Floating-point numbers with infinities

Where a text may name an infinity or no number at all, and where a decimal beyond the greatest
finite value means an infinity, values are extended.

## Main definitions

* `Extended` — a finite value, an infinity, or no number
* `Extended.ofDecimal` — the value nearest to a decimal number
* `Extended.render` — the plain decimal text
* `Extended.clamp` — the nearest natural number up to a bound
-/

namespace Targeting

/-- A finite value, an infinity, or no number. -/
inductive Extended where
  | finite (x : Binary64)
  | infinite (negative : Bool)
  | nan
  deriving DecidableEq

namespace Extended

/-- The value nearest to `digits · 10 ^ scale`; beyond every finite value it is an infinity. -/
def ofDecimal (negative : Bool) (digits : Nat) (scale : Int) : Extended :=
  match Binary64.ofDecimal? negative digits scale with
  | some x => .finite x
  | none => .infinite negative

/-- The plain decimal text of a value. -/
def render : Extended → String
  | .finite x => Layout.plain.render x
  | .infinite false => "inf"
  | .infinite true => "-inf"
  | .nan => "NaN"

/-- The natural number nearest to a value, a tie going away from zero, but at most the bound.
Negative values and no number give zero. -/
def clamp (bound : Nat) : Extended → Nat
  | .finite x => if x.negative then 0 else min x.roundHalfUp bound
  | .infinite false => bound
  | .infinite true | .nan => 0

end Extended

end Targeting
