import Targeting.Text.Reader

/-!
# Quoted TOML text

Text stands between double quotes, where a backslash starts an escape, or between single quotes,
where every character stands for itself. Three quotes enclose text of several lines: a line break
right after the opening quotes is dropped, up to two quotes may stand in front of the closing ones,
and between double quotes a backslash at the end of a line joins it to the next text.

## Main definitions

* `isLineChar` — the characters that may stand in a line
* `lineBreak?` — a line break
* `readBasic?`, `readLiteral?` — text in one line
* `readBasicLines?`, `readLiteralLines?` — text of several lines
* `readQuoted?`, `readText?` — the text of a key and of a value
-/

namespace Targeting.Toml

/-- The characters that may stand in a line: all but the control characters, with the tab. -/
def isLineChar (c : Char) : Bool := c = '\t' || (0x20 ≤ c.toNat && c.toNat ≠ 0x7F)

/-- Blanks inside a line. -/
def isBlank (c : Char) : Bool := c = ' ' || c = '\t'

/-- The text from its first character that is no blank. -/
def skipBlanks (text : List Char) : List Char := text.dropWhile isBlank

/-- The text behind a line break. -/
def lineBreak? : List Char → Option (List Char)
  | '\n' :: rest => some rest
  | '\r' :: '\n' :: rest => some rest
  | _ => none

/-! ### Escapes -/

/-- The character with the given code point, if it is a scalar value. -/
def ofCodePoint? (n : Nat) : Option Char :=
  if n.isValidChar then some (Char.ofNat n) else none

/-- The character that a letter after a backslash stands for. -/
def unescape? (c : Char) : Option Char :=
  match c with
  | 'b' => some '\x08'
  | 't' => some '\t'
  | 'n' => some '\n'
  | 'f' => some '\x0c'
  | 'r' => some '\r'
  | '"' => some '"'
  | '\\' => some '\\'
  | _ => none

/-- The rest of an escape behind its backslash. -/
def readEscape? : Reader Char
  | 'u' :: a :: b :: c :: d :: rest => do
    return (← ofCodePoint? (← Digit.hexNumber? [a, b, c, d]), rest)
  | 'U' :: a :: b :: c :: d :: e :: f :: g :: h :: rest => do
    return (← ofCodePoint? (← Digit.hexNumber? [a, b, c, d, e, f, g, h]), rest)
  | c :: rest => do return (← unescape? c, rest)
  | [] => none

/-! ### One line -/

/-- The characters up to the closing double quote; `fuel` bounds their number. -/
def readBasic? : Nat → Reader (List Char)
  | 0, _ => none
  | fuel + 1, text =>
    match text with
    | '"' :: rest => some ([], rest)
    | '\\' :: rest => do
      let (c, rest) ← readEscape? rest
      let (cs, rest) ← readBasic? fuel rest
      return (c :: cs, rest)
    | c :: rest =>
      if isLineChar c then do
        let (cs, rest) ← readBasic? fuel rest
        return (c :: cs, rest)
      else none
    | [] => none

/-- The characters up to the closing single quote. -/
def readLiteral? : Reader (List Char)
  | '\'' :: rest => some ([], rest)
  | c :: rest =>
    if isLineChar c then do
      let (cs, rest) ← readLiteral? rest
      return (c :: cs, rest)
    else none
  | [] => none

/-! ### Several lines -/

/-- The text behind three closing quotes, with the number of quotes in front of them that belong to
the text. -/
def closing? (quote : Char) (text : List Char) : Option (Nat × List Char) :=
  let quotes := min (text.takeWhile (· = quote)).length 5
  if 3 ≤ quotes then some (quotes - 3, text.drop quotes) else none

/-- The text behind blanks and line breaks; `fuel` bounds the number of line breaks. -/
def skipLines : Nat → List Char → List Char
  | 0, text => text
  | fuel + 1, text =>
    match lineBreak? (skipBlanks text) with
    | some rest => skipLines fuel rest
    | none => skipBlanks text

/-- The text behind a line break that blanks may precede, and behind all further blanks and line
breaks. -/
def joinLines? (text : List Char) : Option (List Char) :=
  (lineBreak? (skipBlanks text)).map fun rest => skipLines rest.length rest

/-- The characters up to three closing double quotes; `fuel` bounds their number. -/
def readBasicLines? : Nat → Reader (List Char)
  | 0, _ => none
  | fuel + 1, text =>
    let keep (c : Char) (rest : List Char) : Option (List Char × List Char) :=
      (readBasicLines? fuel rest).map fun (cs, rest) => (c :: cs, rest)
    match closing? '"' text, lineBreak? text, text with
    | some (quotes, rest), _, _ => some (List.replicate quotes '"', rest)
    | none, some rest, _ => keep '\n' rest
    | none, none, '\\' :: rest =>
      match joinLines? rest with
      | some rest => readBasicLines? fuel rest
      | none => (readEscape? rest).bind fun (c, rest) => keep c rest
    | none, none, c :: rest => if isLineChar c then keep c rest else none
    | none, none, [] => none

/-- The characters up to three closing single quotes; `fuel` bounds their number. -/
def readLiteralLines? : Nat → Reader (List Char)
  | 0, _ => none
  | fuel + 1, text =>
    let keep (c : Char) (rest : List Char) : Option (List Char × List Char) :=
      (readLiteralLines? fuel rest).map fun (cs, rest) => (c :: cs, rest)
    match closing? '\'' text, lineBreak? text, text with
    | some (quotes, rest), _, _ => some (List.replicate quotes '\'', rest)
    | none, some rest, _ => keep '\n' rest
    | none, none, c :: rest => if isLineChar c then keep c rest else none
    | none, none, [] => none

/-! ### Keys and values -/

/-- Text in one line with its quotes. -/
def readQuoted? : Reader String
  | '"' :: rest =>
    (readBasic? (rest.length + 1) rest).map fun (cs, rest) => (String.ofList cs, rest)
  | '\'' :: rest => (readLiteral? rest).map fun (cs, rest) => (String.ofList cs, rest)
  | _ => none

/-- Text of one or several lines with its quotes. -/
def readText? : Reader String := fun text =>
  let afterBreak (rest : List Char) : List Char := (lineBreak? rest).getD rest
  let lines (read? : Nat → Reader (List Char)) (rest : List Char) : Option (String × List Char) :=
    (read? (rest.length + 1) (afterBreak rest)).map fun (cs, rest) => (String.ofList cs, rest)
  match text with
  | '"' :: '"' :: '"' :: rest => lines readBasicLines? rest
  | '\'' :: '\'' :: '\'' :: rest => lines readLiteralLines? rest
  | text => readQuoted? text

end Targeting.Toml
