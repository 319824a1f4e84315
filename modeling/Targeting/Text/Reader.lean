/-!
# Readers of text

A reader takes the characters from its start on and returns what it read together with the rest of
the text, or nothing when the text does not begin with what it expects.

## Main definitions

* `Reader` — the type of readers
* `Digit.value?`, `Digit.number` — the value of a digit and of a sequence of digits
* `Reader.sign`, `Reader.decimals`, `Reader.someDecimals?` — a sign and decimal digits
* `Reader.integer?` — an integer with an optional sign
-/

namespace Targeting

/-- A reader of one part of a text. -/
abbrev Reader (α : Type) := List Char → Option (α × List Char)

namespace Digit

/-- The value of a hexadecimal digit. -/
def value? (c : Char) : Option Nat :=
  if '0' ≤ c ∧ c ≤ '9' then some (c.toNat - '0'.toNat)
  else if 'a' ≤ c ∧ c ≤ 'f' then some (c.toNat - 'a'.toNat + 10)
  else if 'A' ≤ c ∧ c ≤ 'F' then some (c.toNat - 'A'.toNat + 10)
  else none

/-- Whether a character is a digit in a base of at most sixteen. -/
def isDigit (base : Nat) (c : Char) : Bool := (value? c).any (· < base)

/-- The natural number that digits spell, most significant first. -/
def number (base : Nat) (digits : List Nat) : Nat := digits.foldl (fun n d => base * n + d) 0

/-- The natural number that hexadecimal digits spell, and nothing if one of the characters is no
digit. -/
def hexNumber? (digits : List Char) : Option Nat := (digits.mapM value?).map (number 16)

end Digit

namespace Reader

/-- Whether a minus sign stands in front; a plus sign is dropped as well. -/
def sign : List Char → Bool × List Char
  | '-' :: rest => (true, rest)
  | '+' :: rest => (false, rest)
  | rest => (false, rest)

/-- The values of the leading decimal digits. -/
def decimals (text : List Char) : List Nat × List Char :=
  ((text.takeWhile Char.isDigit).map fun c => c.toNat - '0'.toNat, text.dropWhile Char.isDigit)

/-- The values of at least one leading decimal digit. -/
def someDecimals? : Reader (List Nat) := fun text =>
  match decimals text with
  | ([], _) => none
  | (digits, rest) => some (digits, rest)

/-- An integer: decimal digits behind an optional sign. -/
def integer? : Reader Int := fun text => do
  let (negative, rest) := sign text
  let (digits, rest) ← someDecimals? rest
  let n : Int := Digit.number 10 digits
  return (if negative then -n else n, rest)

end Reader

end Targeting
