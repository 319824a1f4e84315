import Targeting.Decimal.Extended

/-!
# TOML values

A document is a table. Its tables differ in how they came about, because that decides whether they
can still be extended: a table with a header of its own is complete once the next header follows,
one that only appears on the way to another is open, and one that a dotted key made can be extended
by dotted keys alone.

## Main definitions

* `Toml.Value` — a value
* `Toml.TableForm` — how a table came about
* `Toml.Date`, `Toml.Time`, `Toml.Moment` — dates and times
-/

namespace Targeting.Toml

/-- A day of the calendar. -/
structure Date where
  year : Nat
  month : Nat
  day : Nat
  deriving DecidableEq

/-- A time of day. -/
structure Time where
  hour : Nat
  minute : Nat
  second : Nat
  /-- The digits after the point of the seconds. -/
  fraction : List Nat
  deriving DecidableEq

/-- A distance from the prime meridian's time. -/
structure Offset where
  negative : Bool
  hours : Nat
  minutes : Nat
  deriving DecidableEq

/-- A date, a time, or both with or without an offset. -/
inductive Moment where
  | date (d : Date)
  | time (t : Time)
  | dateTime (d : Date) (t : Time) (offset : Option Offset)
  deriving DecidableEq

/-- How a table came about: in braces, by a header, on the way of a header, or by a dotted key. -/
inductive TableForm where
  | inline
  | header
  | passed
  | dotted
  deriving DecidableEq

/-- A TOML value. The elements of an array of tables are the member lists of its tables. -/
inductive Value where
  | string (s : String)
  | integer (n : Int)
  | float (x : Extended)
  | boolean (b : Bool)
  | moment (m : Moment)
  | array (items : List Value)
  | table (form : TableForm) (members : List (String × Value))
  | tables (elements : List (List (String × Value)))

/-- The members of a table. -/
abbrev Members := List (String × Value)

namespace Members

/-- The member with the given key. -/
def get? (members : Members) (key : String) : Option Value :=
  (members.find? (·.1 = key)).map (·.2)

/-- Gives the member with the given key another value. -/
def replace (members : Members) (key : String) (value : Value) : Members :=
  members.map fun m => if m.1 = key then (key, value) else m

/-- Adds a member behind the others. -/
def add (members : Members) (key : String) (value : Value) : Members := members ++ [(key, value)]

end Members

end Targeting.Toml
