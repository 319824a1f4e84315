import Targeting.Json.Reader

/-!
# Taxonomies

A taxonomy gives categories their display names. It is stored as a JSON object from category keys to
names. Whatever answers such questions is a `Resolver`.

## Main definitions

* `Resolver` — the display name of a key, if it is known
* `Taxonomy` — a table of display names
* `Taxonomy.read?` — the taxonomy in a text
-/

namespace Targeting

/-- Answers with the display name of a category key, if it is known. -/
abbrev Resolver := String → Option String

namespace Resolver

/-- Knows no category. -/
def none : Resolver := fun _ => Option.none

end Resolver

/-- A table of display names, sorted by key. -/
structure Taxonomy where
  names : List (String × Json) := []

namespace Taxonomy

/-- The number of categories. -/
def size (t : Taxonomy) : Nat := t.names.length

/-- Looks a key up in the table. -/
def resolver (t : Taxonomy) : Resolver := fun key => (Json.lookup? key t.names).bind (·.string?)

/-- The taxonomy in a text, which must hold an object of strings. -/
def read? (text : String) : Option Taxonomy := do
  let members ← Json.readMembers? text
  if members.all fun m => m.2.string?.isSome then return { names := Json.sortMembers members }
  else none

end Taxonomy

end Targeting
