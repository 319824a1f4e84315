import Targeting.Text.Reader
import Targeting.Toml.Value

/-!
# TOML dates and times

## Main definitions

* `readMoment?` — a date, a time, or both
-/

namespace Targeting.Toml

/-- A number of two digits up to a bound. -/
def readPair? (greatest : Nat) : Reader Nat
  | a :: b :: rest =>
    if a.isDigit && b.isDigit then
      let n := Digit.number 10 ([a, b].filterMap Digit.value?)
      if n ≤ greatest then some (n, rest) else none
    else none
  | _ => none

/-- The character that has to follow. -/
def expect? (c : Char) : Reader Unit
  | d :: rest => if d = c then some ((), rest) else none
  | [] => none

/-- Whether a year has a leap day. -/
def isLeapYear (year : Nat) : Bool := year % 4 = 0 && (year % 100 ≠ 0 || year % 400 = 0)

/-- The number of days of a month. -/
def daysIn (year month : Nat) : Nat :=
  if month = 2 then if isLeapYear year then 29 else 28
  else if month = 4 ∨ month = 6 ∨ month = 9 ∨ month = 11 then 30
  else 31

/-- A date. -/
def readDate? : Reader Date := fun text => do
  let (century, rest) ← readPair? 99 text
  let (yearOfCentury, rest) ← readPair? 99 rest
  let year := 100 * century + yearOfCentury
  let ((), rest) ← expect? '-' rest
  let (month, rest) ← readPair? 12 rest
  let ((), rest) ← expect? '-' rest
  let (day, rest) ← readPair? 31 rest
  if month = 0 ∨ day = 0 ∨ daysIn year month < day then none
  else return ({ year, month, day }, rest)

/-- The digits after the point of the seconds, if there is a point with digits. -/
def readSecondFraction : List Char → List Nat × List Char
  | '.' :: rest => (Reader.someDecimals? rest).getD ([], '.' :: rest)
  | rest => ([], rest)

/-- A time of day. A minute can have a leap second. -/
def readTime? : Reader Time := fun text => do
  let (hour, rest) ← readPair? 23 text
  let ((), rest) ← expect? ':' rest
  let (minute, rest) ← readPair? 59 rest
  let ((), rest) ← expect? ':' rest
  let (second, rest) ← readPair? 60 rest
  let (fraction, rest) := readSecondFraction rest
  return ({ hour, minute, second, fraction }, rest)

/-- Hours and minutes of an offset behind its sign. -/
def readOffsetTime? (negative : Bool) : Reader Offset := fun text => do
  let (hours, rest) ← readPair? 23 text
  let ((), rest) ← expect? ':' rest
  let (minutes, rest) ← readPair? 59 rest
  return ({ negative, hours, minutes }, rest)

/-- An offset, if there is one. -/
def readOffset? : Reader (Option Offset)
  | 'Z' :: rest | 'z' :: rest => some (some ⟨false, 0, 0⟩, rest)
  | '+' :: rest => (readOffsetTime? false rest).map fun (offset, rest) => (some offset, rest)
  | '-' :: rest => (readOffsetTime? true rest).map fun (offset, rest) => (some offset, rest)
  | rest => some (none, rest)

/-- The time that may follow a date, behind a letter or a blank. -/
def readTimeOfDate? : Reader Time
  | 'T' :: rest | 't' :: rest | ' ' :: rest => readTime? rest
  | _ => none

/-- A date, a time, or both. A date in front of something that is no time stands alone. -/
def readMoment? : Reader Moment := fun text =>
  match readDate? text with
  | none => (readTime? text).map fun (time, rest) => (.time time, rest)
  | some (date, rest) =>
    match readTimeOfDate? rest with
    | none => some (.date date, rest)
    | some (time, rest) =>
      (readOffset? rest).map fun (offset, rest) => (.dateTime date time offset, rest)

end Targeting.Toml
