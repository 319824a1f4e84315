import Targeting.Decimal.Shortest

/-!
# Laying out a decimal number

A `Layout` says how the shortest decimal of a value is spelled: between which powers of ten it is
written positionally, whether a whole number keeps a fraction, and how ties between two shortest
decimals are settled. Outside the positional range the number is written with an exponent.

## Main definitions

* `Layout` — the decisions of one output format
* `Layout.render` — the text of a finite value
-/

namespace Targeting

/-- The decisions of a decimal output format. The first digit stands for some power of ten: from
`least` (when there is one) to below `limit` (when there is one) the number is written
positionally. -/
structure Layout where
  least : Option Int
  limit : Option Int
  keepFraction : Bool
  tie : TieRule

namespace Layout

/-- Whether a number whose first digit stands for `10 ^ power` is written positionally. -/
def isPositional (l : Layout) (power : Int) : Bool :=
  l.least.all (· ≤ power) && l.limit.all (power < ·)

/-- The positional spelling of a decimal number. -/
def positional (l : Layout) (d : Decimal) : List Char :=
  let digits := d.digitChars
  if 0 ≤ d.scale then
    digits ++ List.replicate d.scale.toNat '0' ++ (if l.keepFraction then ['.', '0'] else [])
  else
    let places := (-d.scale).toNat
    if places < digits.length then
      digits.take (digits.length - places) ++ '.' :: digits.drop (digits.length - places)
    else
      '0' :: '.' :: List.replicate (places - digits.length) '0' ++ digits

/-- The spelling with an exponent: one digit before the point and an explicit sign. -/
def scientific (d : Decimal) : List Char :=
  let mantissa := match d.digitChars with
    | first :: second :: rest => first :: '.' :: second :: rest
    | digits => digits
  let power := d.leadingPower
  mantissa ++ 'e' :: (if power < 0 then '-' else '+') :: Nat.toDigits 10 power.natAbs

/-- The text of a finite value. -/
def render (l : Layout) (x : Binary64) : String :=
  let magnitude :=
    if x.isZero then l.positional ⟨0, 0⟩
    else
      let d := x.shortest l.tie
      if l.isPositional d.leadingPower then l.positional d else scientific d
  String.ofList (if x.negative then '-' :: magnitude else magnitude)

/-- Every number positionally, and whole numbers without a fraction. -/
def plain : Layout := ⟨none, none, false, .up⟩

end Layout

end Targeting
