import Targeting.Json.Number
import Targeting.Text.Reader

/-!
# Reading JSON text

The reader accepts exactly the JSON grammar: blanks are space, tab, line feed and carriage return,
strings contain no raw control character and no half of a surrogate pair, and nothing but blanks
follows the value. Containers are nested at most 127 deep, and numbers must not exceed the range of
binary fractions. Why a text is refused is not reported.

## Main definitions

* `Json.read?` — the value of a text
* `Json.readMembers?` — the members of a text that holds an object, in order and with repetitions
-/

namespace Targeting.Json

/-- Blanks between tokens. -/
def isBlank (c : Char) : Bool := c = ' ' || c = '\t' || c = '\n' || c = '\r'

/-- The text from its first character that is no blank. -/
def skipBlanks (text : List Char) : List Char := text.dropWhile isBlank

/-- The greatest depth of nested containers. -/
def greatestDepth : Nat := 127

/-! ### Strings -/

/-- The character of a unit that is no surrogate. -/
def ofUnit? (unit : Nat) : Option Char :=
  if 0xD800 ≤ unit ∧ unit ≤ 0xDFFF then none else some (Char.ofNat unit)

/-- The character of a pair of surrogates. -/
def ofPair? (high low : Nat) : Option Char :=
  if 0xD800 ≤ high ∧ high ≤ 0xDBFF ∧ 0xDC00 ≤ low ∧ low ≤ 0xDFFF then
    some (Char.ofNat (0x10000 + (high - 0xD800) * 0x400 + (low - 0xDC00)))
  else none

/-- The character that stands for a letter after a backslash. -/
def unescape? (c : Char) : Option Char :=
  match c with
  | '"' => some '"'
  | '\\' => some '\\'
  | '/' => some '/'
  | 'b' => some '\x08'
  | 'f' => some '\x0c'
  | 'n' => some '\n'
  | 'r' => some '\r'
  | 't' => some '\t'
  | _ => none

/-- The characters up to the closing quote, after those already read (last one first). -/
def readChars? (done : List Char) : Reader (List Char)
  | '"' :: rest => some (done.reverse, rest)
  | '\\' :: 'u' :: a :: b :: c :: d :: rest =>
    match Digit.hexNumber? [a, b, c, d] with
    | none => none
    | some unit =>
      match ofUnit? unit with
      | some char => readChars? (char :: done) rest
      | none =>
        match rest with
        | '\\' :: 'u' :: e :: f :: g :: h :: rest =>
          match (Digit.hexNumber? [e, f, g, h]).bind (ofPair? unit) with
          | some char => readChars? (char :: done) rest
          | none => none
        | _ => none
  | '\\' :: c :: rest =>
    match unescape? c with
    | some char => readChars? (char :: done) rest
    | none => none
  | c :: rest => if c.toNat < 0x20 then none else readChars? (c :: done) rest
  | [] => none

/-- The string whose opening quote has been read. -/
def readString? : Reader String := fun text =>
  (readChars? [] text).map fun (cs, rest) => (String.ofList cs, rest)

/-! ### Numbers -/

/-- The digits before the point: a zero alone, or digits of which the first is not zero. -/
def readLeading? : Reader (List Nat) := fun text => do
  let (digits, rest) ← Reader.someDecimals? text
  if digits.head? = some 0 ∧ digits.length > 1 then none else some (digits, rest)

/-- A point with at least one digit, if there is a point. -/
def readFraction? : Reader (Option (List Nat))
  | '.' :: rest => (Reader.someDecimals? rest).map fun (digits, rest) => (some digits, rest)
  | rest => some (none, rest)

/-- The digits of an exponent, after its sign. -/
def readPower? (negative : Bool) : Reader (Option Int) := fun text =>
  (Reader.someDecimals? text).map fun (digits, rest) =>
    (some (if negative then -(Digit.number 10 digits : Int) else Digit.number 10 digits), rest)

/-- An exponent, if there is one. -/
def readExponent? : Reader (Option Int)
  | 'e' :: '-' :: rest | 'E' :: '-' :: rest => readPower? true rest
  | 'e' :: '+' :: rest | 'E' :: '+' :: rest => readPower? false rest
  | 'e' :: rest | 'E' :: rest => readPower? false rest
  | rest => some (none, rest)

/-- A number. -/
def readNumber? : Reader Number := fun text => do
  let (negative, text) := match text with
    | '-' :: rest => (true, rest)
    | rest => (false, rest)
  let (whole, text) ← readLeading? text
  let (fraction, text) ← readFraction? text
  let (exponent, text) ← readExponent? text
  let number ← Number.ofLiteral? { negative, whole, fraction, exponent }
  return (number, text)

/-! ### Values -/

/-- The items of an array after its first, up to the closing bracket; `fuel` bounds their
number. -/
def readItems? (item? : Reader Json) : Nat → Reader (List Json)
  | 0, _ => none
  | fuel + 1, text =>
    match skipBlanks text with
    | ']' :: rest => some ([], rest)
    | ',' :: rest => do
      let (item, rest) ← item? rest
      let (items, rest) ← readItems? item? fuel rest
      return (item :: items, rest)
    | _ => none

/-- A member: a quoted key, a colon and a value. -/
def readMember? (item? : Reader Json) : Reader (String × Json) := fun text =>
  match skipBlanks text with
  | '"' :: rest => do
    let (key, rest) ← readString? rest
    match skipBlanks rest with
    | ':' :: rest => do
      let (value, rest) ← item? rest
      return ((key, value), rest)
    | _ => none
  | _ => none

/-- The members of an object after its first, up to the closing brace; `fuel` bounds their
number. -/
def readMoreMembers? (item? : Reader Json) : Nat → Reader (List (String × Json))
  | 0, _ => none
  | fuel + 1, text =>
    match skipBlanks text with
    | '}' :: rest => some ([], rest)
    | ',' :: rest => do
      let (member, rest) ← readMember? item? rest
      let (members, rest) ← readMoreMembers? item? fuel rest
      return (member :: members, rest)
    | _ => none

/-- The rest of an array whose opening bracket has been read. -/
def readArray? (item? : Reader Json) (fuel : Nat) : Reader (List Json) := fun text =>
  match skipBlanks text with
  | ']' :: rest => some ([], rest)
  | text => do
    let (item, rest) ← item? text
    let (items, rest) ← readItems? item? fuel rest
    return (item :: items, rest)

/-- The rest of an object whose opening brace has been read. -/
def readObject? (item? : Reader Json) (fuel : Nat) : Reader (List (String × Json)) := fun text =>
  match skipBlanks text with
  | '}' :: rest => some ([], rest)
  | text => do
    let (member, rest) ← readMember? item? text
    let (members, rest) ← readMoreMembers? item? fuel rest
    return (member :: members, rest)

/-- A value with containers nested at most `depth` deep and of at most `fuel` items each. -/
def readValue? (fuel : Nat) : Nat → Reader Json
  | depth, text =>
    match skipBlanks text, depth with
    | 'n' :: 'u' :: 'l' :: 'l' :: rest, _ => some (.null, rest)
    | 't' :: 'r' :: 'u' :: 'e' :: rest, _ => some (.bool true, rest)
    | 'f' :: 'a' :: 'l' :: 's' :: 'e' :: rest, _ => some (.bool false, rest)
    | '"' :: rest, _ => (readString? rest).map fun (s, rest) => (.string s, rest)
    | '[' :: rest, depth + 1 =>
      (readArray? (readValue? fuel depth) fuel rest).map fun (items, rest) => (.array items, rest)
    | '{' :: rest, depth + 1 =>
      (readObject? (readValue? fuel depth) fuel rest).map fun (members, rest) =>
        (ofMembers members, rest)
    | '[' :: _, 0 | '{' :: _, 0 => none
    | text, _ => (readNumber? text).map fun (n, rest) => (.number n, rest)

/-- What a reader reads when only blanks follow. The reader is given a bound on the number of
items that the text can hold. -/
def readWhole? (read? : Nat → Reader α) (text : String) : Option α :=
  let chars := text.toList
  match read? (chars.length + 1) chars with
  | some (a, rest) => if (skipBlanks rest).isEmpty then some a else none
  | none => none

/-- The value of a text. -/
def read? (text : String) : Option Json :=
  readWhole? (fun fuel => readValue? fuel greatestDepth) text

/-- The members of a text that holds an object, in the order of the text and with repeated keys;
objects inside have their members sorted. -/
def readMembers? (text : String) : Option (List (String × Json)) :=
  readWhole? (fun fuel text =>
    match skipBlanks text with
    | '{' :: rest => readObject? (readValue? fuel (greatestDepth - 1)) fuel rest
    | _ => none) text

end Targeting.Json
