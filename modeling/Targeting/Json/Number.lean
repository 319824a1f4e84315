import Targeting.Decimal.Layout
import Targeting.Json.Value

/-!
# Numbers in JSON text

An integer that fits 64 bits (signed when negative, unsigned otherwise) stays an integer; every
other number becomes a binary fraction, and so does `-0`. A fraction is read in two steps: the
leading digits that fit 64 bits give a significand, which is then multiplied or divided by a power
of ten, with one rounding in each step. A number too large for the format is refused.

Fractions are written with the fewest digits that identify them, positionally for magnitudes from
`1e-5` to below `1e16`.

## Main definitions

* `Json.Number.Literal` — the parts of a number in JSON text
* `Json.Number.ofLiteral?` — the number that a literal denotes
* `Json.Number.render` — the text of a number
-/

namespace Targeting.Json.Number

/-- The parts of a number in JSON text. Digits are values below ten, most significant first. -/
structure Literal where
  negative : Bool
  whole : List Nat
  fraction : Option (List Nat)
  exponent : Option Int

/-- The greatest significand and the greatest integer, `2 ^ 64 - 1`. -/
def greatest : Nat := Nat.pow 2 64 - 1

/-- Takes in digits before the point until the next one would not fit, and counts the rest. -/
def takeWhole : Nat → List Nat → Nat × Nat
  | significand, [] => (significand, 0)
  | significand, digit :: digits =>
    if significand * 10 + digit ≤ greatest then takeWhole (significand * 10 + digit) digits
    else (significand, digits.length + 1)

/-- Takes in digits after the point until the next one would not fit, and drops the rest. The
second component counts the digits taken in. -/
def takeFraction : Nat → List Nat → Nat × Nat
  | significand, [] => (significand, 0)
  | significand, digit :: digits =>
    if significand * 10 + digit ≤ greatest then
      let (s, count) := takeFraction (significand * 10 + digit) digits
      (s, count + 1)
    else (significand, 0)

/-- The power of ten `10 ^ n` as a binary fraction, for `n` at most 308. -/
def power? (n : Nat) : Option Binary64 := Binary64.ofNat? false (Nat.pow 10 n)

/-- A significand times a power of ten, rounded once for the significand and once for the
product or quotient. Below `1e-308` the quotient is taken in two steps. -/
def scale? (negative : Bool) (significand : Nat) (exponent : Int) : Option Binary64 := do
  let x ← Binary64.ofNat? negative significand
  if x.isZero then return x
  if exponent > 308 then none
  else if exponent ≥ 0 then x.mul? (← power? exponent.toNat)
  else if exponent ≥ -308 then x.div? (← power? (-exponent).toNat)
  else if exponent ≥ -616 then
    let y ← x.div? (← power? 308)
    y.div? (← power? (-exponent - 308).toNat)
  else return Binary64.zero negative

/-- The number that a literal denotes, and `none` when it is too large. -/
def ofLiteral? (l : Literal) : Option Number :=
  let (significand, dropped) := takeWhole 0 l.whole
  match l.fraction, l.exponent, dropped with
  | none, none, 0 =>
    if l.negative then
      if significand = 0 ∨ significand > Nat.pow 2 63 then
        (Binary64.ofNat? true significand).map .float
      else some (.int (-significand))
    else some (.int significand)
  | fraction, exponent, dropped =>
    let (significand, places) := takeFraction significand (fraction.getD [])
    (scale? l.negative significand (dropped - places + exponent.getD 0)).map .float

/-- Fractions keep a fraction part, are positional from `1e-5` to below `1e16`, and a tie between
two shortest decimals goes to the even one. -/
def layout : Layout := ⟨some (-5), some 16, true, .toEven⟩

/-- The text of a number. -/
def render : Number → String
  | .int n => toString n
  | .float x => layout.render x

end Targeting.Json.Number
