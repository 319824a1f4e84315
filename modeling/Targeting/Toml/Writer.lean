import Targeting.Toml.Quoted

/-!
# Writing TOML text

Text is written in the first of these forms that can hold it: between double quotes without any
escape but that of the tab, between single quotes, between three double quotes, between three single
quotes, and last between double quotes with escapes. Text of several lines stands between three
quotes and begins on a line of its own.

## Main definitions

* `Shape` — the features of a text on which its form depends
* `writeText` — a text as a TOML value
-/

namespace Targeting.Toml

/-- A control character that only an escape can write. -/
def needsEscape (c : Char) : Bool := c ≠ '\n' && !isLineChar c

/-- The length of the longest run of a character. -/
def longestRun (c : Char) (text : List Char) : Nat :=
  (text.foldl (fun (longest, run) d =>
    if d = c then (max longest (run + 1), run + 1) else (longest, 0)) (0, 0)).1

/-- The features of a text on which its written form depends. -/
structure Shape where
  controls : Bool
  backslashes : Bool
  lines : Bool
  doubleQuotes : Nat
  singleQuotes : Nat

/-- The features of a text. -/
def Shape.ofText (text : List Char) : Shape where
  controls := text.any needsEscape
  backslashes := text.contains '\\'
  lines := text.contains '\n'
  doubleQuotes := longestRun '"' text
  singleQuotes := longestRun '\'' text

/-- The written forms of a text. -/
inductive Form where
  | basic
  | literal
  | basicLines
  | literalLines
  deriving DecidableEq

/-- The form in which a text is written. -/
def Shape.form (s : Shape) : Form :=
  if !s.controls && !s.backslashes && !s.lines && s.doubleQuotes = 0 then .basic
  else if !s.controls && !s.lines && s.singleQuotes = 0 then .literal
  else if !s.controls && !s.backslashes && s.doubleQuotes ≤ 2 then .basicLines
  else if !s.controls && s.singleQuotes ≤ 2 then .literalLines
  else if s.lines then .basicLines
  else .basic

/-- A code point below `0x100` as an escape of four digits. -/
def numberedEscape (c : Char) : List Char :=
  ['\\', 'u', '0', '0', (Nat.digitChar (c.toNat / 16)).toUpper,
    (Nat.digitChar (c.toNat % 16)).toUpper]

/-- A character between double quotes that has an escape. -/
def escaped? (c : Char) : Option (List Char) :=
  if c = '\x08' then some ['\\', 'b']
  else if c = '\t' then some ['\\', 't']
  else if c = '\x0c' then some ['\\', 'f']
  else if c = '\r' then some ['\\', 'r']
  else if c = '\\' then some ['\\', '\\']
  else if needsEscape c then some (numberedEscape c)
  else none

/-- Text between double quotes, of which at most `quotes` may stand side by side without escape;
`run` of them have just been written. -/
def escapeText (quotes : Nat) : Nat → List Char → List Char
  | _, [] => []
  | run, '"' :: rest =>
    if run < quotes then '"' :: escapeText quotes (run + 1) rest
    else '\\' :: '"' :: escapeText quotes 0 rest
  | _, c :: rest => (escaped? c).getD [c] ++ escapeText quotes 0 rest

/-- The line break in front of text of several lines. -/
def leadingBreak (text : List Char) : List Char := if text.contains '\n' then ['\n'] else []

/-- A text as a TOML value. -/
def writeText (s : String) : String :=
  let text := s.toList
  let triple (quote : Char) : List Char := [quote, quote, quote]
  String.ofList <| match (Shape.ofText text).form with
    | .basic => '"' :: (escapeText 0 0 text ++ ['"'])
    | .literal => '\'' :: (text ++ ['\''])
    | .basicLines => triple '"' ++ leadingBreak text ++ escapeText 2 0 text ++ triple '"'
    | .literalLines => triple '\'' ++ leadingBreak text ++ text ++ triple '\''

end Targeting.Toml
