import Targeting.Configuration.Layer
import Targeting.Decimal.Extended
import Targeting.Environment.Basic
import Targeting.Text.Basic
import Targeting.Text.Reader

/-!
# Configuration by environment variables

A variable whose name begins with `AUDTARGET__` specifies a value; the rest of its name, in which case
does not matter and two underscores are as good as a point, is the key of the value and says where it
belongs. A value that looks like a truth value or a number is one. Of several variables with one key
the last one counts. The values are collected key by key, in an order that nothing fixes, and each one
replaces what stands in its way.

## Main definitions

* `Scalar`, `Scalar.ofText` — the value of a variable
* `VariableKey.ofName?`, `VariableKey.steps` — the key in the name of a variable, and where it leads
* `Collected`, `Environment.collected` — the values that variables specify
* `Layer.ofEnvironment` — the layer that variables specify
-/

namespace Targeting

/-! ### Values -/

/-- The value of a variable. -/
inductive Scalar where
  | boolean (b : Bool)
  | integer (n : Int)
  | float (x : Extended)
  | text (s : String)
  deriving DecidableEq

namespace Scalar

/-- The integer that a text spells, if it fits 64 bits with a sign. -/
def integer? (text : List Char) : Option Int :=
  match Reader.integer? text with
  | some (n, []) => if -(Nat.pow 2 63) ≤ n ∧ n < Nat.pow 2 63 then some n else none
  | _ => none

/-- The power of ten that an exponent at the end of a text spells, zero without one. -/
def exponent? : List Char → Option Int
  | [] => some 0
  | c :: rest =>
    match Reader.integer? rest with
    | some (n, []) => if c = 'e' ∨ c = 'E' then some n else none
    | _ => none

/-- The digits behind a point, if there is a point. -/
def readPlaces : List Char → List Nat × List Char
  | '.' :: rest => Reader.decimals rest
  | rest => ([], rest)

/-- The decimal number that a text spells: digits with a point among or beside them, and an
exponent. -/
def decimal? (negative : Bool) (text : List Char) : Option Extended :=
  let (whole, rest) := Reader.decimals text
  let (places, rest) := readPlaces rest
  if whole.isEmpty ∧ places.isEmpty then none
  else (exponent? rest).map fun power =>
    .ofDecimal negative (Digit.number 10 (whole ++ places)) (power - places.length)

/-- The number that a text spells or names. -/
def float? (text : List Char) : Option Extended :=
  let (negative, rest) := Reader.sign text
  let name := Text.lower (String.ofList rest)
  if name = "inf" ∨ name = "infinity" then some (.infinite negative)
  else if name = "nan" then some .nan
  else decimal? negative rest

/-- The value of a variable with the given text. -/
def ofText (s : String) : Scalar :=
  let name := Text.lower s
  if name = "true" then .boolean true
  else if name = "false" then .boolean false
  else
    match integer? s.toList, float? s.toList with
    | some n, _ => .integer n
    | none, some x => .float x
    | none, none => .text s

/-- The text of a value. -/
def render : Scalar → String
  | .boolean b => toString b
  | .integer n => toString n
  | .float x => x.render
  | .text s => s

/-- The greatest bound on a number of groups. -/
def greatestBound : Nat := Nat.pow 2 64 - 1

/-- The bound on a number of groups that a value gives. -/
def bound? : Scalar → Option Nat
  | .boolean b => some (if b then 1 else 0)
  | .integer n => if 0 ≤ n then some n.toNat else none
  | .float x => some (x.clamp greatestBound)
  | .text s =>
    let name := Text.lower s
    if name = "on" ∨ name = "yes" then some 1
    else if name = "off" ∨ name = "no" then some 0
    else none

end Scalar

/-! ### Keys -/

/-- The keys that lead from the topmost table to a value in tables. -/
abbrev ConfigurationPath := List String

/-- A step from a value to a part of it. -/
inductive PathStep where
  | member (key : String)
  | place (n : Int)
  deriving DecidableEq

namespace VariableKey

/-- The beginning of the names of variables that specify values, in lower case. -/
def marker : List Char := "audtarget__".toList

/-- A text with a point in place of each pair of underscores. -/
def pointed : List Char → List Char
  | [] => []
  | '_' :: '_' :: rest => '.' :: pointed rest
  | c :: rest => c :: pointed rest

/-- The key in the name of a variable, if it specifies a value. -/
def ofName? (name : String) : Option String :=
  let name := (Text.lower name).toList
  if marker.isPrefixOf name then some (String.ofList (pointed (name.drop marker.length))) else none

/-- The characters in the name of a member. -/
def isNameChar (c : Char) : Bool := c.isAlphanum || c = '_' || c = '-' || c = ' '

/-- Whether a character may stand around the number of a place. -/
def isBlank (c : Char) : Bool := c = ' ' || c = '\t'

/-- The number of a place: decimal digits, with a minus sign for places counted from the end. -/
def place? (text : List Char) : Option Int :=
  let digits := ((text.dropWhile isBlank).reverse.dropWhile isBlank).reverse
  if digits.head? = some '+' then none else Scalar.integer? digits

/-- The number of the place in front of a closing bracket. -/
def bracketed? (text : List Char) : Option Int :=
  if text.getLast? = some ']' then place? text.dropLast else none

/-- The steps that a part of a key spells: the name of a member, and places in brackets. -/
def part? (text : List Char) : Option (List PathStep) :=
  match Text.pieces '[' text with
  | [] => none
  | name :: places =>
    if !name.isEmpty && name.all isNameChar then
      (places.mapM bracketed?).map fun places =>
        .member (String.ofList name) :: places.map .place
    else none

/-- Where a key leads. Points separate its parts; a key that has a part of another form is the name of
a member as a whole. -/
def steps (key : String) : List PathStep :=
  match (Text.pieces '.' key.toList).mapM part? with
  | some parts => parts.flatten
  | none => [.member key]

end VariableKey

/-! ### Collected values -/

/-- What is collected from variables. Settings do not stand in arrays, so it does not matter what an
array holds. -/
inductive Collected where
  | nothing
  | scalar (x : Scalar)
  | array
  | table (members : List (String × Collected))

namespace Collected

/-- The members of a table; of several with one key the first one counts. -/
def members : Collected → List (String × Collected)
  | .table members => members
  | _ => []

/-- The member of a table with a key. -/
def member? (v : Collected) (key : String) : Option Collected :=
  (v.members.find? (·.1 = key)).map (·.2)

/-- Puts a value where steps lead. On the way there, what is not a table but has to be one becomes one,
and what is not an array but has to be one becomes one. -/
def put (x : Scalar) : List PathStep → Collected → Collected
  | [], _ => .scalar x
  | .member key :: steps, v =>
    .table ((key, put x steps ((v.member? key).getD .nothing)) :: v.members)
  | .place _ :: _, _ => .array

/-- The value at a path, if it is neither a table nor an array. -/
def scalarAt? : ConfigurationPath → Collected → Option Scalar
  | [], .scalar x => some x
  | [], _ => none
  | key :: path, v => (v.member? key).bind (scalarAt? path)

end Collected

namespace Environment

/-- The keys of the variables that specify values, each one once. -/
def keys (env : Environment) : List String :=
  (env.bindings.filterMap fun b => VariableKey.ofName? b.1).eraseDups

/-- The text of the last variable with a key. -/
def text? (env : Environment) (key : String) : Option String :=
  (env.bindings.findRev? fun b => VariableKey.ofName? b.1 = some key).map (·.2)

/-- The keys with their values, in the order in which they are collected. -/
def entries (env : Environment) : List (String × Scalar) :=
  (env.keyOrder.arrange env.keys).filterMap fun key =>
    (env.text? key).map fun text => (key, Scalar.ofText text)

/-- The values that variables specify. -/
def collected (env : Environment) : Collected :=
  env.entries.foldl (fun v (key, x) => v.put x (VariableKey.steps key)) (.table [])

/-- The value that variables specify at a path. -/
def specified? (env : Environment) (path : ConfigurationPath) : Option Scalar :=
  env.collected.scalarAt? path

end Environment

/-- The layer that variables specify. -/
def Layer.ofEnvironment (env : Environment) : Layer where
  provider := (env.specified? ["provider"]).map Scalar.render
  taxonomyFile := (env.specified? ["taxonomy_file"]).map Scalar.render
  maxInclusionGroups := (env.specified? ["grammar", "max_inclusion_groups"]).bind Scalar.bound?
  maxExclusionGroups := (env.specified? ["grammar", "max_exclusion_groups"]).bind Scalar.bound?

end Targeting
