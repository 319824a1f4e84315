import Targeting.Json.Number
import Targeting.Unicode.Unshown

/-!
# Values for inspection

The inspection form names the type of every value, so that `5` and `"5"` cannot be confused, and
escapes characters that would not show.

## Main definitions

* `Json.inspect` — the inspection form of a value
-/

namespace Targeting.Json

/-- A character of an inspected string. -/
def inspectChar (c : Char) : String :=
  if c = '\x00' then "\\0"
  else if c = '\t' then "\\t"
  else if c = '\r' then "\\r"
  else if c = '\n' then "\\n"
  else if c = '"' then "\\\""
  else if c = '\\' then "\\\\"
  else if Unicode.isUnshown c then
    "\\u\x7b" ++ String.ofList (Nat.toDigits 16 c.toNat) ++ "\x7d"
  else c.toString

/-- An inspected string between quotes. -/
def inspectString (s : String) : String :=
  "\"" ++ String.join (s.toList.map inspectChar) ++ "\""

mutual

/-- The inspection form of a value. -/
def inspect : Json → String
  | .null => "Null"
  | .bool b => "Bool(" ++ toString b ++ ")"
  | .number n => "Number(" ++ n.render ++ ")"
  | .string s => "String(" ++ inspectString s ++ ")"
  | .array items => "Array [" ++ inspectItems items ++ "]"
  | .object members => "Object \x7b" ++ inspectMembers members ++ "\x7d"

/-- Inspected items, separated by commas. -/
def inspectItems : List Json → String
  | [] => ""
  | [item] => item.inspect
  | item :: items => item.inspect ++ ", " ++ inspectItems items

/-- Inspected members, separated by commas. -/
def inspectMembers : List (String × Json) → String
  | [] => ""
  | [(key, value)] => inspectString key ++ ": " ++ value.inspect
  | (key, value) :: members =>
    inspectString key ++ ": " ++ value.inspect ++ ", " ++ inspectMembers members

end

end Targeting.Json
