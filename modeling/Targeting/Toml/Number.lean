import Targeting.Text.Reader
import Targeting.Toml.Value

/-!
# TOML numbers

An integer is decimal with an optional sign, or has a base named in front; it must fit 64 bits with
a sign. Digits may be grouped by single underscores. A decimal number does not begin with a
superfluous zero. A float has a point with digits on both sides, an exponent, or both, or it is an
infinity or no number by name; a positive one must not exceed the finite values.

## Main definitions

* `readNumber?` — an integer or a float
-/

namespace Targeting.Toml

/-- Further digits of a base, each of which may follow an underscore. -/
def moreDigits (base : Nat) : List Char → List Char × List Char
  | [] => ([], [])
  | '_' :: c :: rest =>
    if Digit.isDigit base c then
      let (cs, rest) := moreDigits base rest
      (c :: cs, rest)
    else ([], '_' :: c :: rest)
  | c :: rest =>
    if Digit.isDigit base c then
      let (cs, rest) := moreDigits base rest
      (c :: cs, rest)
    else ([], c :: rest)

/-- The values of at least one digit of a base, grouped by underscores. -/
def readDigits? (base : Nat) : Reader (List Nat)
  | c :: rest =>
    if Digit.isDigit base c then
      let (cs, rest) := moreDigits base rest
      some ((c :: cs).filterMap Digit.value?, rest)
    else none
  | [] => none

/-- The digits of a decimal number before the point: a zero alone, or digits of which the first is
not zero. -/
def readWhole? : Reader (List Nat)
  | '0' :: rest => some ([0], rest)
  | text => readDigits? 10 text

/-- A point with its digits, if there is a point. -/
def readFraction? : Reader (Option (List Nat))
  | '.' :: rest => (readDigits? 10 rest).map fun (digits, rest) => (some digits, rest)
  | rest => some (none, rest)

/-- An exponent behind its letter. -/
def readPower? : Reader (Option Int) := fun text => do
  let (negative, rest) := Reader.sign text
  let (digits, rest) ← readDigits? 10 rest
  let power : Int := Digit.number 10 digits
  return (some (if negative then -power else power), rest)

/-- An exponent, if there is one. -/
def readExponent? : Reader (Option Int)
  | 'e' :: rest | 'E' :: rest => readPower? rest
  | rest => some (none, rest)

/-- An integer, if it fits 64 bits with a sign. -/
def ofInteger? (n : Int) : Option Value :=
  if -(Nat.pow 2 63) ≤ n ∧ n < Nat.pow 2 63 then some (.integer n) else none

/-- A float, unless it is a positive infinity that was not named. -/
def ofFloat? (x : Extended) : Option Value :=
  if x = .infinite false then none else some (.float x)

/-- A decimal number behind its sign. -/
def readDecimal? (negative : Bool) : Reader Value := fun text => do
  let (whole, rest) ← readWhole? text
  let (fraction, rest) ← readFraction? rest
  let (exponent, rest) ← readExponent? rest
  let n := Digit.number 10 whole
  match fraction, exponent with
  | none, none => return (← ofInteger? (if negative then -n else n), rest)
  | fraction, exponent =>
    let places := fraction.getD []
    let x := Extended.ofDecimal negative (Digit.number 10 (whole ++ places))
      (exponent.getD 0 - places.length)
    return (← ofFloat? x, rest)

/-- An integer of a base behind the name of the base. -/
def readBased? (base : Nat) : Reader Value := fun text => do
  let (digits, rest) ← readDigits? base text
  return (← ofInteger? (Digit.number base digits), rest)

/-- A number. -/
def readNumber? : Reader Value := fun text =>
  match text with
  | '0' :: 'x' :: rest => readBased? 16 rest
  | '0' :: 'o' :: rest => readBased? 8 rest
  | '0' :: 'b' :: rest => readBased? 2 rest
  | text =>
    match Reader.sign text with
    | (negative, 'i' :: 'n' :: 'f' :: rest) => some (.float (.infinite negative), rest)
    | (_, 'n' :: 'a' :: 'n' :: rest) => some (.float .nan, rest)
    | (negative, rest) => readDecimal? negative rest

end Targeting.Toml
