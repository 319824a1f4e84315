/-!
# Texts

Operations on texts that look at one character after the other.

## Main definitions

* `Text.pieces` — the pieces of a text between separators
* `Text.lower` — a text in lower case
* `Text.isLedBy` — whether a text begins with a character
-/

namespace Targeting.Text

/-- The pieces of a text between separators, one more than there are separators. -/
def pieces (separator : Char) : List Char → List (List Char)
  | [] => [[]]
  | c :: rest =>
    let following := pieces separator rest
    if c = separator then [] :: following
    else (c :: following.headD []) :: following.tail

/-- The lower case of a character, as far as it is an unaccented Latin letter. Beside the capital
letters one other character has such a lower case, the sign of the unit kelvin. -/
def lowerChar (c : Char) : Char := if c = '\u212a' then 'k' else c.toLower

/-- A text in lower case, as far as this gives unaccented Latin letters. -/
def lower (s : String) : String := String.ofList (s.toList.map lowerChar)

/-- Whether a text begins with a character. -/
def isLedBy (c : Char) (s : String) : Bool := s.toList.head? = some c

end Targeting.Text
