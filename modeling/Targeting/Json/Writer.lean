import Targeting.Json.Number

/-!
# Writing JSON text

Two forms of text: the compact one without any blanks, and the pretty one, which puts every item
and member on a line of its own, indented by two spaces for each level. In both, strings escape the
quote, the backslash and control characters, and nothing else; members keep the order in which the
value holds them.

Writers put their text in front of a given rest, so that texts are built without copying.

## Main definitions

* `Json.compact`, `Json.pretty` — the two forms
* `Json.quote` — a string as JSON text
-/

namespace Targeting.Json

/-- A hexadecimal digit in lower case. -/
def hexDigit (n : Nat) : Char := Nat.digitChar (n % 16)

/-- A character inside a quoted string. -/
def writeChar (c : Char) (rest : List Char) : List Char :=
  if c = '"' then '\\' :: '"' :: rest
  else if c = '\\' then '\\' :: '\\' :: rest
  else if c = '\x08' then '\\' :: 'b' :: rest
  else if c = '\x0c' then '\\' :: 'f' :: rest
  else if c = '\n' then '\\' :: 'n' :: rest
  else if c = '\r' then '\\' :: 'r' :: rest
  else if c = '\t' then '\\' :: 't' :: rest
  else if c.toNat < 0x20 then
    '\\' :: 'u' :: '0' :: '0' :: hexDigit (c.toNat / 16) :: hexDigit c.toNat :: rest
  else c :: rest

/-- A quoted string. -/
def writeString (s : String) (rest : List Char) : List Char :=
  '"' :: s.toList.foldr writeChar ('"' :: rest)

/-- A string as JSON text. -/
def quote (s : String) : String := String.ofList (writeString s [])

/-! ### The compact form -/

mutual

/-- The compact text of a value. -/
def writeCompact : Json → List Char → List Char
  | .null, rest => 'n' :: 'u' :: 'l' :: 'l' :: rest
  | .bool true, rest => 't' :: 'r' :: 'u' :: 'e' :: rest
  | .bool false, rest => 'f' :: 'a' :: 'l' :: 's' :: 'e' :: rest
  | .number n, rest => n.render.toList ++ rest
  | .string s, rest => writeString s rest
  | .array [], rest => '[' :: ']' :: rest
  | .array (item :: items), rest => '[' :: writeCompact item (writeCompactItems items rest)
  | .object [], rest => '{' :: '}' :: rest
  | .object ((key, value) :: members), rest =>
    '{' :: writeString key (':' :: writeCompact value (writeCompactMembers members rest))

/-- The items after the first, and the closing bracket. -/
def writeCompactItems : List Json → List Char → List Char
  | [], rest => ']' :: rest
  | item :: items, rest => ',' :: writeCompact item (writeCompactItems items rest)

/-- The members after the first, and the closing brace. -/
def writeCompactMembers : List (String × Json) → List Char → List Char
  | [], rest => '}' :: rest
  | (key, value) :: members, rest =>
    ',' :: writeString key (':' :: writeCompact value (writeCompactMembers members rest))

end

/-- The compact text of a value. -/
def compact (value : Json) : String := String.ofList (writeCompact value [])

/-! ### The pretty form -/

/-- A line break and the indentation of a level. -/
def writeBreak (level : Nat) (rest : List Char) : List Char :=
  '\n' :: (List.replicate (2 * level) ' ' ++ rest)

mutual

/-- The pretty text of a value that stands at the given level. -/
def writePretty (level : Nat) : Json → List Char → List Char
  | .array (item :: items), rest =>
    '[' :: writeBreak (level + 1)
      (writePretty (level + 1) item (writePrettyItems level items rest))
  | .object ((key, value) :: members), rest =>
    '{' :: writeBreak (level + 1) (writeString key
      (':' :: ' ' :: writePretty (level + 1) value (writePrettyMembers level members rest)))
  | .array [], rest => '[' :: ']' :: rest
  | .object [], rest => '{' :: '}' :: rest
  | .null, rest => writeCompact .null rest
  | .bool b, rest => writeCompact (.bool b) rest
  | .number n, rest => writeCompact (.number n) rest
  | .string s, rest => writeString s rest

/-- The items after the first, and the closing bracket at the given level. -/
def writePrettyItems (level : Nat) : List Json → List Char → List Char
  | [], rest => writeBreak level (']' :: rest)
  | item :: items, rest =>
    ',' :: writeBreak (level + 1)
      (writePretty (level + 1) item (writePrettyItems level items rest))

/-- The members after the first, and the closing brace at the given level. -/
def writePrettyMembers (level : Nat) : List (String × Json) → List Char → List Char
  | [], rest => writeBreak level ('}' :: rest)
  | (key, value) :: members, rest =>
    ',' :: writeBreak (level + 1) (writeString key
      (':' :: ' ' :: writePretty (level + 1) value (writePrettyMembers level members rest)))

end

/-- The pretty text of a value. -/
def pretty (value : Json) : String := String.ofList (writePretty 0 value [])

end Targeting.Json
