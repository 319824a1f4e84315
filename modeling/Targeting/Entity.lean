import Targeting.Json.Reader
import Targeting.Json.Writer

/-!
# Settings of an entity

A targeting expression belongs to an entity, such as an ad group, and is stored in its settings, a
JSON object. Only the expression is interpreted; every other field is kept as it is, so that saving
settings loses nothing that other programs wrote.

## Main definitions

* `EntitySettings` — the fields of an entity
* `EntitySettings.ofMembers?`, `EntitySettings.members` — from and to the members of an object
* `EntitySettings.read?` — the settings in a text
-/

namespace Targeting

/-- The settings of an entity. A field that is `null` in the stored object counts as absent, except
among the fields that are not interpreted. -/
structure EntitySettings where
  id : Json := .null
  name : Option String := none
  targeting : Option Json := none
  extra : List (String × Json) := []
  deriving DecidableEq

namespace EntitySettings

/-- The keys of the fields that are interpreted. -/
def fieldKeys : List String := ["id", "name", "audienceTargeting"]

/-- Whether a member is one of the fields that are not interpreted. -/
def isExtra (member : String × Json) : Bool := !fieldKeys.contains member.1

/-- A value that is not `null`. -/
def present? (value : Json) : Option Json := if value.isNull then none else some value

/-- The settings with the given members; the name must be a string. -/
def ofMembers? (members : List (String × Json)) : Option EntitySettings :=
  let settings (name : Option String) : EntitySettings :=
    { id := (Json.lookup? "id" members).getD .null
      name
      targeting := (Json.lookup? "audienceTargeting" members).bind present?
      extra := Json.sortMembers (members.filter isExtra) }
  match (Json.lookup? "name" members).getD .null with
  | .null => some (settings none)
  | .string name => some (settings (some name))
  | _ => none

/-- The settings that a value holds. -/
def ofJson? : Json → Option EntitySettings
  | .object members => ofMembers? members
  | _ => none

/-- Whether no interpreted field is given twice. -/
def fieldsOnce (members : List (String × Json)) : Bool :=
  fieldKeys.all fun key => (members.countP fun m => m.1 = key) ≤ 1

/-- The settings in a text, which must hold an object that gives no interpreted field twice. -/
def read? (text : String) : Option EntitySettings := do
  let members ← Json.readMembers? text
  if fieldsOnce members then ofMembers? members else none

/-- The members to store: the interpreted fields that are present, then the others. -/
def members (s : EntitySettings) : List (String × Json) :=
  ((present? s.id).map ("id", ·)).toList
    ++ (s.name.map fun name => ("name", Json.string name)).toList
    ++ (s.targeting.map ("audienceTargeting", ·)).toList
    ++ s.extra

/-- The settings as a value. -/
def toJson (s : EntitySettings) : Json := .object s.members

/-- The stored text of settings. -/
def write (s : EntitySettings) : String := s.toJson.pretty ++ "\n"

/-- The identifier for messages: a string as it is, a dash when absent. -/
def displayId (s : EntitySettings) : String :=
  match s.id with
  | .string id => id
  | .null => "-"
  | id => id.compact

/-- The stored expression, `null` when there is none. -/
def expression (s : EntitySettings) : Json := s.targeting.getD .null

end EntitySettings

end Targeting
