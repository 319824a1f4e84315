import Targeting.Toml.Moment
import Targeting.Toml.Number
import Targeting.Toml.Quoted
import Targeting.Toml.Table

/-!
# Reading TOML documents

A document is a sequence of lines, each of them empty or with one statement, and a comment at its
end. Arrays may extend over several lines, tables in braces may not. Containers are nested less than
eighty deep, and a dotted key has less than eighty parts.

## Main definitions

* `readKey?`, `readValue?` — a dotted key and a value
* `readStatements?` — the statements of a document
* `Toml.read?` — the table that a text describes
-/

namespace Targeting.Toml

/-- Containers and dotted keys stay below this depth. -/
def depthLimit : Nat := 80

/-! ### Comments -/

/-- The text behind a comment, which ends in front of the first character that may not stand in a
line. -/
def skipComment : List Char → List Char
  | '#' :: rest => rest.dropWhile isLineChar
  | rest => rest

/-- The text behind the blanks and the comment at the end of a line, and behind the line break if
the text goes on. -/
def endLine? (text : List Char) : Option (List Char) :=
  match skipComment (skipBlanks text) with
  | [] => some []
  | rest => lineBreak? rest

/-- The text behind blanks, comments and line breaks; `fuel` bounds the number of lines. -/
def skipGap : Nat → List Char → List Char
  | 0, text => text
  | fuel + 1, text =>
    match lineBreak? (skipComment (skipBlanks text)) with
    | some rest => skipGap fuel rest
    | none => skipBlanks text

/-! ### Keys -/

/-- The characters of a key without quotes. -/
def isKeyChar (c : Char) : Bool := c.isAlphanum || c = '_' || c = '-'

/-- One part of a dotted key. -/
def readKeyPart? : Reader String := fun text =>
  match readQuoted? text with
  | some key => some key
  | none =>
    match text.takeWhile isKeyChar with
    | [] => none
    | key => some (String.ofList key, text.dropWhile isKeyChar)

/-- The parts of a dotted key with the blanks around them; `fuel` bounds their number. -/
def readKeyParts? : Nat → Reader (List String)
  | 0, _ => none
  | fuel + 1, text => do
    let (part, rest) ← readKeyPart? (skipBlanks text)
    match skipBlanks rest with
    | '.' :: rest =>
      let (parts, rest) ← readKeyParts? fuel rest
      return (part :: parts, rest)
    | rest => return ([part], rest)

/-- A dotted key. -/
def readKey? : Reader (List String) := readKeyParts? (depthLimit - 1)

/-! ### Values -/

/-- The items of an array up to its closing bracket; `fuel` bounds their number. A comma may follow
the last one. -/
def readItems? (value? : Reader Value) : Nat → Reader (List Value)
  | 0, _ => none
  | fuel + 1, text =>
    match skipGap text.length text with
    | ']' :: rest => some ([], rest)
    | text => do
      let (item, rest) ← value? text
      match skipGap rest.length rest with
      | ']' :: rest => return ([item], rest)
      | ',' :: rest =>
        let (items, rest) ← readItems? value? fuel rest
        return (item :: items, rest)
      | _ => none

/-- A dotted key, an equals sign and a value. -/
def readAssignment? (value? : Reader Value) : Reader (List String × Value) := fun text => do
  let (path, rest) ← readKey? text
  let ((), rest) ← expect? '=' rest
  let (value, rest) ← value? (skipBlanks rest)
  return ((path, value), rest)

/-- The entries of a table in braces up to its closing brace, at least one of them; `fuel` bounds
their number. -/
def readAssignments? (value? : Reader Value) : Nat → Reader (List (List String × Value))
  | 0, _ => none
  | fuel + 1, text => do
    let (entry, rest) ← readAssignment? value? text
    match skipBlanks rest with
    | '}' :: rest => return ([entry], rest)
    | ',' :: rest =>
      let (entries, rest) ← readAssignments? value? fuel rest
      return (entry :: entries, rest)
    | _ => none

/-- The rest of a table in braces behind its opening brace. -/
def readInline? (value? : Reader Value) (fuel : Nat) : Reader Value := fun text =>
  match skipBlanks text with
  | '}' :: rest => some (.table .inline [], rest)
  | text => do
    let (entries, rest) ← readAssignments? value? fuel text
    return (.table .inline (← Members.ofEntries? entries), rest)

/-- A value with containers nested at most `depth` deep and of at most `fuel` items each. -/
def readValue? (fuel : Nat) : Nat → Reader Value
  | depth, text =>
    match text, depth with
    | '"' :: _, _ | '\'' :: _, _ => (readText? text).map fun (s, rest) => (.string s, rest)
    | 't' :: 'r' :: 'u' :: 'e' :: rest, _ => some (.boolean true, rest)
    | 'f' :: 'a' :: 'l' :: 's' :: 'e' :: rest, _ => some (.boolean false, rest)
    | '[' :: rest, depth + 1 =>
      (readItems? (readValue? fuel depth) fuel rest).map fun (items, rest) => (.array items, rest)
    | '{' :: rest, depth + 1 => readInline? (readValue? fuel depth) fuel rest
    | '[' :: _, 0 | '{' :: _, 0 => none
    | text, _ =>
      match readMoment? text with
      | some (moment, rest) => some (.moment moment, rest)
      | none => readNumber? text

/-! ### Documents -/

/-- The dotted key of a header up to its closing brackets. -/
def readHeader? (closing : List Char) : Reader (List String) := fun text => do
  let (path, rest) ← readKey? text
  let rest ← closing.foldlM (fun rest c => (expect? c rest).map (·.2)) rest
  return (path, rest)

/-- A statement. -/
def readStatement? (fuel : Nat) : Reader Statement := fun text =>
  match text with
  | '[' :: '[' :: rest =>
    (readHeader? [']', ']'] rest).map fun (path, rest) => (.element path, rest)
  | '[' :: rest => (readHeader? [']'] rest).map fun (path, rest) => (.table path, rest)
  | text =>
    (readAssignment? (readValue? fuel (depthLimit - 1)) text).map fun ((path, value), rest) =>
      (.entry path value, rest)

/-- The statements of the lines of a text; `fuel` bounds the number of lines and of the items in a
container. -/
def readLines? (fuel : Nat) : Nat → List Char → Option (List Statement)
  | 0, _ => none
  | lines + 1, text =>
    match skipGap text.length text with
    | [] => some []
    | '#' :: rest => if (rest.dropWhile isLineChar).isEmpty then some [] else none
    | text => do
      let (statement, rest) ← readStatement? fuel text
      return statement :: (← readLines? fuel lines (← endLine? rest))

/-- The text without a mark of its byte order. -/
def dropMark : List Char → List Char
  | '\uFEFF' :: rest => rest
  | rest => rest

/-- The statements of a document. -/
def readStatements? (text : String) : Option (List Statement) :=
  let text := dropMark text.toList
  readLines? (text.length + 1) (text.length + 1) text

/-- The table that a text describes. -/
def read? (text : String) : Option Members :=
  (readStatements? text).bind Members.ofStatements?

end Targeting.Toml
